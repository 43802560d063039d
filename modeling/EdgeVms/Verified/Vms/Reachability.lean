import EdgeVms.Verified.Vms.ReleasedSlots
import EdgeVms.Vms.ClusterController

/-! # Reachability

A camera's labels say which networks its worker's server has to reach.  `place`
looks at them; `redistribute` and `rebalance` are inherited from a controller that
does not know labels, and choose by load alone.
-/

namespace EdgeVms.Verified.Reachability

open Process Python Platform Vms VmsController

/-! ## Rebalancing the board -/

/-- The first name beyond all others. -/
def farthest (beyond : ℚ → ℚ → Bool) (level : String → ℚ) : String → List String → String
  | best, [] => best
  | best, name :: rest => farthest beyond level (if beyond (level name) (level best) then name else best) rest

def level (double : ℚ → ℚ) (carries : String → Int) (board : Board) (name : String) : ℚ :=
  double (((board.units name).length : Int) / carries name)

/-- The camera that `rebalance` moves next, and where. -/
def surplus (double : ℚ → ℚ) (carries : String → Int) (deadBand : ℚ) (names : List String) (board : Board) :
    Option (Int × String) :=
  match names with
  | [] | [_] => none
  | first :: rest =>
    let hi := farthest (fun load most => load > most) (level double carries board) first rest
    let lo := farthest (fun load least => load < least) (level double carries board) first rest
    if double (level double carries board hi - level double carries board lo) < deadBand then none
    else match Board.ids (board.units hi) with
      | [] => none
      | cid :: _ => if ((board.units lo).length : Int) + 1 > carries lo then none else some (cid, lo)

/-- One round of `rebalance`. -/
def evened (double : ℚ → ℚ) (carries : String → Int) (deadBand : ℚ) (names : List String) (board : Board) (_ : Unit) :
    Board :=
  match surplus double carries deadBand names board with
  | none => board
  | some (cid, lo) => board.bring (toString cid) lo

/-- The camera that moves goes to a worker that suits it. -/
def EvensTo (fine : Int → String → Prop) (double : ℚ → ℚ) (carries : String → Int) (deadBand : ℚ) (names : List String)
    (board : Board) (_ : Unit) : Prop :=
  ∀ cid lo, surplus double carries deadBand names board = some (cid, lo) → fine cid lo

variable {view : View} {ι M : Type} [DecidableEq ι] {i : ι} {world world' : World ι M} {capacity : Int} {double : ℚ → ℚ}
  {deadBand : ℚ} {workers : Option (List String)} {live names : List String} {carries : String → Int}
  {fine : Int → String → Prop}

theorem extreme_eq {beyond : ℚ → ℚ → Bool} {loads : Dict ℚ} {level : String → ℚ} {best : String} {rest : List String}
    (same : ∀ name ∈ best :: rest, loads.getD name 0 = level name) :
    extreme beyond loads best rest = farthest beyond level best rest := by
  induction rest generalizing best with
  | nil => rfl
  | cons name rest ih =>
    rw [extreme, farthest, same best (.head _), same name (.tail _ (.head _))]
    apply ih
    intro other member
    obtain rfl | later := List.mem_cons.mp member
    · split
      · exact same name (.tail _ (.head _))
      · exact same best (.head _)
    · exact same other (.tail _ (.tail _ later))

theorem farthest_mem {beyond : ℚ → ℚ → Bool} {level : String → ℚ} {best : String} {rest : List String} :
    farthest beyond level best rest ∈ best :: rest := by
  induction rest generalizing best with
  | nil => exact .head _
  | cons name rest ih =>
    rw [farthest]
    obtain same | later := List.mem_cons.mp (@ih (if beyond (level name) (level best) then name else best))
    · rw [same]
      split
      · exact .tail _ (.head _)
      · exact .head _
    · exact .tail _ (.tail _ later)

theorem loadsRounds_ends {loads result : Dict ℚ} (members : ∀ name ∈ names, name ∈ live)
    (steady : Steady view i capacity workers world live carries)
    (ends : Ends view i (loadsRounds double capacity names loads) world result world') :
    Waited world world' ∧ ∀ name, result.getD name 0 =
      if name ∈ names then level double carries (boardOf world.vars) name else loads.getD name 0 := by
  induction names generalizing loads world with
  | nil =>
    obtain ⟨rfl, rfl⟩ := Ends.ret_inv ends
    exact ⟨.refl _, by simp⟩
  | cons worker rest ih =>
    obtain ⟨carried, weighed, loaded, ends⟩ := Ends.bind_inv ends
    obtain ⟨weighing, rfl⟩ := load_ends loaded
    obtain ⟨able, asked, capable, ends⟩ := Ends.bind_inv ends
    have waits := weighing.trans (capable.waited (ReadsOnly.capacityOf capacity worker))
    obtain rfl := steady.carried weighed asked worker able (members worker (.head _)) weighing.2.1 weighing.2.2 capable
    split at ends
    · cases ends
    · obtain ⟨later, each⟩ :=
        ih (fun name member => members name (.tail _ member)) (steady.later waits.2.1 waits.2.2) ends
      refine ⟨waits.trans later, fun name => ?_⟩
      rw [each, waits.1]
      by_cases here : name ∈ rest
      · rw [if_pos here, if_pos (.tail _ here)]
      · rw [if_neg here]
        by_cases same : name = worker
        · rw [if_pos (by rw [same]; exact .head _), same, Dict.getD, Dict.get?_set_self]
          rfl
        · rw [if_neg (by simp [same, here]), Dict.getD, Dict.get?_set_other _ _ same]
          rfl

theorem mapM_toInt {units : List String} {cids : List Int}
    (read : units.mapM (fun unit => (Text.plain unit).toInt) = .ok cids) : units.filterMap pyInt = cids := by
  induction units generalizing cids with
  | nil =>
    cases read
    rfl
  | cons unit rest ih =>
    simp only [List.mapM_cons, bind_eq_ok] at read
    obtain ⟨cid, first, others, later, ends⟩ := read
    cases ends
    rw [List.filterMap_cons_some (toInt_eq_ok.mp first), ih later]

theorem assignment_ends {worker : String} {a : Assignment}
    (ends : Ends view i (Controller.assignment vms worker) world a world') :
    Waited world world' ∧ a.units = unitsOf world.vars worker := by
  refine ⟨ends.waited (ReadsOnly.assignment vms worker), ?_⟩
  obtain ⟨answer, _, got, ends⟩ := Ends.bind_inv ends
  obtain ⟨rfl, -⟩ := Ends.get_inv got
  exact (units_fromItems (Ends.value_inv ends).1).1

theorem rebalanceRounds_assigns {left : Nat} {moves : List Moved} (members : ∀ name ∈ names, name ∈ live)
    (steady : Steady view i capacity workers world live carries)
    (evens : Along (evened double carries deadBand names) (EvensTo fine double carries deadBand names)
      (List.replicate left ()) (boardOf world.vars)) :
    WritesOnly view i (Assigns fine) (rebalanceRounds double capacity deadBand names left moves) world := by
  induction left generalizing moves world with
  | zero => exact WritesOnly.ret _
  | succ left ih =>
    rw [List.replicate_succ] at evens
    obtain ⟨now, later⟩ := along_cons.mp evens
    unfold rebalanceRounds
    obtain _ | ⟨first, _ | ⟨second, rest⟩⟩ := names
    · exact WritesOnly.ret _
    · exact WritesOnly.ret _
    · -- Two workers or more.
      dsimp only
      apply WritesOnly.reads_bind (ReadsOnly.loadsRounds double capacity _ [])
      intro loads measured ends
      obtain ⟨measuring, each⟩ := loadsRounds_ends members steady ends
      have same : ∀ name ∈ first :: second :: rest,
          loads.getD name 0 = level double carries (boardOf world.vars) name := by
        intro name member
        rw [each, if_pos member]
      rw [extreme_eq same, extreme_eq same, same _ farthest_mem, same _ farthest_mem]
      obtain ⟨hi, hi_eq⟩ : ∃ hi,
          hi = farthest (fun load most => load > most) (level double carries (boardOf world.vars)) first
        (second :: rest) := ⟨_, rfl⟩
      obtain ⟨lo, lo_eq⟩ : ∃ lo,
          lo = farthest (fun load least => load < least) (level double carries (boardOf world.vars)) first
        (second :: rest) := ⟨_, rfl⟩
      have least : lo ∈ live := members lo (lo_eq ▸ farthest_mem)
      rw [← hi_eq, ← lo_eq]
      split
      next even => exact WritesOnly.ret _
      next uneven =>
        apply WritesOnly.reads_bind (ReadsOnly.assignment vms hi)
        intro a looked assigned
        obtain ⟨looking, units⟩ := assignment_ends assigned
        apply WritesOnly.reads_bind (ReadsOnly.value _)
        intro cids _ parsed
        obtain ⟨read, rfl⟩ := Ends.value_inv parsed
        have waits := measuring.trans looking
        have moves_next : surplus double carries deadBand (first :: second :: rest) (boardOf world.vars) =
            match cids.insertionSort (· ≤ ·) with
            | [] => none
            | cid :: _ => if ((unitsOf world.vars lo).length : Int) + 1 > carries lo then none else some (cid, lo) := by
          rw [← mapM_toInt read, units, measuring.1, lo_eq, hi_eq]
          exact if_neg (by rwa [← hi_eq, ← lo_eq])
        split
        next none_ => exact WritesOnly.ret _
        next cid others listed =>
          rw [listed] at moves_next
          apply WritesOnly.reads_bind (ReadsOnly.load lo)
          intro carried weighed loaded
          obtain ⟨weighing, rfl⟩ := load_ends loaded
          apply WritesOnly.reads_bind (ReadsOnly.capacityOf capacity lo)
          intro able asked capable
          have weighed_ := waits.trans weighing
          obtain rfl := steady.carried weighed asked lo able least weighed_.2.1 weighed_.2.2 capable
          have ready := weighed_.trans (capable.waited (ReadsOnly.capacityOf capacity lo))
          split
          next full => exact WritesOnly.ret _
          next free_ =>
            rw [waits.1] at free_
            have chosen := moves_next.trans (if_neg free_)
            apply WritesOnly.bind (move_assigns (now cid lo chosen))
            intro pl moved moves'
            have passed := ready.passed.trans moves'.passed
            apply ih (steady.later passed.1 passed.2)
            rw [move_board moves', ready.1]
            rwa [evened, chosen] at later

/-! ## What the heartbeats say -/

theorem outward_seenRounds (now maxAge : ℚ) (names : List String) (out : Dict Heartbeat) :
    Outward (Controller.seenRounds vms now maxAge names out : Program M _) := by
  induction names generalizing out with
  | nil => trivial
  | cons name rest ih =>
    refine Outward.bind (Outward.bind (fun _ => trivial) Outward.ofExcept) fun beat => ?_
    cases beat with
    | none => exact ih _
    | some beat => exact ih _

theorem outward_workersSeen (maxAge : ℚ) : Outward (Controller.workersSeen vms maxAge : Program M _) :=
  Outward.bind (fun _ => trivial) fun _ => Outward.bind (fun _ => trivial) fun _ => outward_seenRounds _ _ _ _

theorem outward_candidates (workers : Option (List String)) : Outward (candidates workers : Program M _) := by
  cases workers with
  | some workers => trivial
  | none => exact Outward.bind (outward_workersSeen 45) fun _ => trivial

theorem outward_capacityOf (capacity : Int) (worker : String) : Outward (capacityOf capacity worker : Program M _) := by
  refine Outward.bind (outward_workersSeen _) fun seen => ?_
  split
  · exact Outward.value _
  · trivial

theorem outward_labelsOf (worker : String) : Outward (ClusterController.labelsOf worker : Program M _) := by
  refine Outward.bind (Outward.bind (outward_workersSeen _) fun _ => trivial) fun beat => ?_
  cases beat with
  | none => trivial
  | some beat => exact Outward.bind (Outward.value _) fun _ => trivial

theorem readsOnly_lastSeen (worker : String) : ReadsOnly (ClusterController.lastSeen worker : Program M _) :=
  ReadsOnly.bind (ReadsOnly.workersSeen vms _) fun _ => trivial

theorem readsOnly_labelsOf (worker : String) : ReadsOnly (ClusterController.labelsOf worker : Program M _) := by
  refine ReadsOnly.bind (readsOnly_lastSeen worker) fun beat => ?_
  cases beat with
  | none => trivial
  | some beat => exact ReadsOnly.bind (ReadsOnly.value _) fun _ => trivial

theorem readsOnly_serverOf (worker : String) : ReadsOnly (ClusterController.serverOf worker : Program M _) := by
  refine ReadsOnly.bind (readsOnly_lastSeen worker) fun beat => ?_
  cases beat with
  | none => trivial
  | some beat => trivial

theorem readsOnly_eligibleRounds (needs : List Value) (names pool : List String) :
    ReadsOnly (ClusterController.eligibleRounds needs names pool : Program M _) := by
  induction names generalizing pool with
  | nil => trivial
  | cons worker rest ih =>
    refine ReadsOnly.bind (readsOnly_labelsOf worker) fun labels => ?_
    split
    · exact ih _
    · exact ih _

theorem readsOnly_camera (cid : Int) : ReadsOnly (camera cid : Program M _) := by
  refine ReadsOnly.bind (ReadsOnly.get _) fun answer => ?_
  dsimp only
  split
  · trivial
  · exact ReadsOnly.map (ReadsOnly.value _)

/-- The workers that a call finds. -/
def liveOf (outside : Outside) (workers : Option (List String)) : List String :=
  (answer outside (candidates workers : Program Unit _)).toOption.getD []

/-- What a worker can carry. -/
def carriesOf (capacity : Int) (outside : Outside) (worker : String) : Int :=
  (answer outside (capacityOf capacity worker : Program Unit _)).toOption.getD 0

/-- The label set that the worker last reported. -/
def reportedBy (outside : Outside) (worker : String) : Option (List String) :=
  (answer outside (ClusterController.labelsOf worker : Program Unit _)).toOption

/-- The row of a camera that is there. -/
def cameraIn (rows : Rows) (cid : Int) : Option (Dict Value) :=
  let it := rowValues (rows.read (cameraKey (toString cid)))
  if it.isEmpty || isDeleted it then none else (row it).toOption

/-- The label set that the worker last reported contains all labels of the camera. -/
def Reaches (outside : Outside) (rows : Rows) (cid : Int) (worker : String) : Prop :=
  ∀ r needs, cameraIn rows cid = some r → ClusterController.need r = .ok needs →
    ∃ labels, reportedBy outside worker = some labels ∧ ClusterController.within needs labels = true

instance (outside : Outside) (rows : Rows) (cid : Int) (worker : String) :
    Decidable (Reaches outside rows cid worker) :=
  decidable_of_iff ((cameraIn rows cid).all fun r => match ClusterController.need r with
    | .ok needs => (reportedBy outside worker).any fun labels => ClusterController.within needs labels
    | .error _ => true) (by
      unfold Reaches
      cases cameraIn rows cid with
      | none => simp
      | some r =>
        cases made : ClusterController.need r with
        | error error =>
          refine iff_of_true (by simp [made]) ?_
          intro r' needs same made'
          cases same
          rw [made] at made'
          cases made'
        | ok needs =>
          simp only [Option.all_some, made, Option.any_eq_true]
          constructor
          · intro heard r' needs' same made'
            cases same
            rw [made] at made'
            cases made'
            exact heard
          · exact fun all => all r needs rfl made)

variable {outside : Outside} {rows : Rows} {still still' : World ι Unit}

theorem steady_of_still (same : still.outside = fun _ => outside) :
    Steady view i capacity workers still (liveOf outside workers) (carriesOf capacity outside) := by
  constructor
  · intro now now' names later _ ends
    rw [liveOf, (outward_candidates workers).answers (later.trans same) ends]
    rfl
  · intro now now' worker n _ later _ ends
    rw [carriesOf, (outward_capacityOf capacity worker).answers (later.trans same) ends]
    rfl

/-! ## `place` -/

theorem camera_ends {cid : Int} {cam : Dict Value} (ends : Ends view i (camera cid) world (some cam) world') :
    Waited world world' ∧ cameraIn world.vars cid = some cam := by
  refine ⟨ends.waited (readsOnly_camera cid), ?_⟩
  obtain ⟨answer, _, got, ends⟩ := Ends.bind_inv ends
  obtain ⟨rfl, rfl⟩ := Ends.get_inv got
  unfold cameraIn
  dsimp only at ends
  split at ends
  next gone => cases (Ends.ret_inv ends).1
  next there =>
    rw [if_neg there]
    obtain ⟨r, _, made, ends⟩ := Ends.bind_inv ends
    cases (Ends.ret_inv ends).1
    obtain ⟨read, -⟩ := Ends.value_inv made
    rw [read]
    rfl

/-- Every worker of the pool reaches the camera. -/
theorem eligibleRounds_ends {needs : List Value} {pool result : List String} (same : still.outside = fun _ => outside)
    (so_far : ∀ name ∈ pool, ∃ labels, reportedBy outside name = some labels ∧
      ClusterController.within needs labels = true)
    (ends : Ends view i (ClusterController.eligibleRounds needs names pool) still result still') :
    Waited still still' ∧
      ∀ name ∈ result, ∃ labels, reportedBy outside name = some labels ∧
        ClusterController.within needs labels = true := by
  induction names generalizing pool still with
  | nil =>
    obtain ⟨rfl, rfl⟩ := Ends.ret_inv ends
    exact ⟨.refl _, so_far⟩
  | cons worker rest ih =>
    obtain ⟨labels, middle, reported, ends⟩ := Ends.bind_inv ends
    have waits := reported.waited (readsOnly_labelsOf worker)
    have heard : reportedBy outside worker = some labels := by
      rw [reportedBy, (outward_labelsOf worker).answers same reported]
      rfl
    split at ends
    next reaches =>
      obtain ⟨later, all⟩ := ih (waits.2.1.trans same) (fun name member => by
        obtain old | rfl := List.mem_append.mp member |>.imp_right List.mem_singleton.mp
        · exact so_far name old
        · exact ⟨labels, heard, reaches⟩) ends
      exact ⟨waits.trans later, all⟩
    next =>
      obtain ⟨later, all⟩ := ih (waits.2.1.trans same) so_far ends
      exact ⟨waits.trans later, all⟩

theorem bestRounds_mem {best : Option String} {most : Int} {result : Option String × Int} {name : String}
    (ends : Ends view i (bestRounds capacity names best most) world result world') (chosen : result.1 = some name) :
    name ∈ names ∨ best = some name := by
  induction names generalizing best most world with
  | nil =>
    obtain ⟨rfl, -⟩ := Ends.ret_inv ends
    exact .inr chosen
  | cons worker rest ih =>
    obtain ⟨f, middle, freed, ends⟩ := Ends.bind_inv ends
    split at ends
    · obtain later | same := ih ends
      · exact .inl (.tail _ later)
      · cases same
        exact .inl (.head _)
    · obtain later | same := ih ends
      · exact .inl (.tail _ later)
      · exact .inr same

theorem place_reaches {cid : Int} (same : still.outside = fun _ => outside)
    (cams : ∀ cid, cameraIn still.vars cid = cameraIn rows cid) :
    WritesOnly view i (Assigns (Reaches outside rows)) (ClusterController.place capacity cid workers) still := by
  unfold ClusterController.place
  apply WritesOnly.reads_bind (ReadsOnly.placement cid)
  intro have_ placed looked
  have looking := looked.waited (ReadsOnly.placement cid)
  cases have_ with
  | some have_ => exact WritesOnly.ret _
  | none =>
    have vacant := (placement_none looked).mp rfl
    apply WritesOnly.reads_bind (readsOnly_camera cid)
    intro cam fetched found
    cases cam with
    | none => exact WritesOnly.ret _
    | some cam =>
      obtain ⟨fetching, row⟩ := camera_ends found
      rw [looking.1, cams] at row
      apply WritesOnly.reads_bind (ReadsOnly.candidates workers)
      intro names seen listed
      have waits := (looking.trans fetching).trans (listed.waited (ReadsOnly.candidates workers))
      apply WritesOnly.reads_bind (ReadsOnly.bind (ReadsOnly.value _) fun _ => readsOnly_eligibleRounds _ _ _)
      intro pool narrowed eligible
      obtain ⟨needs, _, asked, afterNeed⟩ := Ends.bind_inv eligible
      obtain ⟨needed, rfl⟩ := Ends.value_inv asked
      have nobody : ∀ name ∈ ([] : List String), ∃ labels, reportedBy outside name = some labels ∧
          ClusterController.within needs labels = true := by simp
      obtain ⟨narrowing, reach⟩ := eligibleRounds_ends (waits.2.1.trans same) nobody afterNeed
      have waits := waits.trans narrowing
      split
      · exact WritesOnly.ret _
      apply WritesOnly.reads_bind (ReadsOnly.bestRounds capacity pool none 0)
      intro best compared chosen
      have waits := waits.trans (chosen.waited (ReadsOnly.bestRounds capacity pool none 0))
      obtain ⟨_ | best, most⟩ := best
      · exact WritesOnly.ret _
      have suits : Reaches outside rows cid best := by
        intro r needs' there needed'
        rw [row] at there
        cases there
        rw [needed] at needed'
        cases needed'
        exact reach best ((bestRounds_mem chosen rfl).resolve_right (by simp))
      apply WritesOnly.reads_bind (ReadsOnly.value _)
      intro labels _ made
      obtain ⟨-, rfl⟩ := Ends.value_inv made
      apply WritesOnly.reads_bind (readsOnly_serverOf best)
      intro server served heard
      have waits := waits.trans (heard.waited (readsOnly_serverOf best))
      apply WritesOnly.reads_bind (p := Program.wall) (fun _ => trivial)
      intro now clocked clock
      have vacant' : workerOf clocked.vars (toString cid) = none := by
        cases clock
        rw [World.tick_vars, waits.1, vacant]
      apply placeRow_assigns vacant' suits
      intro rev rowed
      apply WritesOnly.reads_bind (ReadsOnly.value _)
      intro pl _ made
      obtain ⟨read, rfl⟩ := Ends.value_inv made
      refine WritesOnly.bind ?_ fun _ _ _ => WritesOnly.ret _
      rw [placement_new read]
      exact assignAdd_assigns suits

theorem cameraIn_kept {p : Program M α} {result : α} {fine : Int → String → Prop}
    (writes : WritesOnly view i (Assigns fine) p world) (ends : Ends view i p world result world') (cid : Int) :
    cameraIn world'.vars cid = cameraIn world.vars cid := by
  have kept := writes.keeps_row (fun _ _ assigns => assigns.own (aside_cameras (toString cid))) ends
  rw [cameraIn, kept]
  rfl

theorem ensureRounds_reaches
    {cams : List (Int × Dict Value)} {out : List Placement} (same : still.outside = fun _ => outside)
    (kept : ∀ cid, cameraIn still.vars cid = cameraIn rows cid) :
    WritesOnly view i (Assigns (Reaches outside rows))
      (ClusterController.ensureRounds capacity workers cams out) still := by
  induction cams generalizing out still with
  | nil => exact WritesOnly.ret _
  | cons cam rest ih =>
    have first :
        WritesOnly view i (Assigns (Reaches outside rows)) (ClusterController.place capacity cam.1 workers) still :=
      place_reaches same kept
    apply WritesOnly.bind first
    intro pl middle placed
    have kept' : ∀ cid, cameraIn middle.vars cid = cameraIn rows cid := fun cid =>
      (cameraIn_kept first placed cid).trans (kept cid)
    have same' := placed.passed.1.trans same
    cases pl with
    | some pl => exact ih same' kept'
    | none => exact ih same' kept'

/-! ## Runs -/

/-- The operations that write placement rows, or cameras. -/
inductive Operation where
  | createCamera (fields : Dict Value)
  | place (cid : Int) (workers : Option (List String))
  | ensurePlaced (workers : Option (List String))
  | redistribute (workers : Option (List String))
  | rebalance (budget : Int) (deadBand : ℚ) (workers : Option (List String))

namespace Operation

def program (double : ℚ → ℚ) (capacity : Int) : Operation → Program Unit Unit
  | .createCamera fields => do
    let _ ← VmsController.createCamera fields
    return ()
  | .place cid workers => do
    let _ ← ClusterController.place capacity cid workers
    return ()
  | .ensurePlaced workers => do
    let _ ← ClusterController.ensurePlaced capacity workers
    return ()
  | .redistribute workers => do
    let _ ← VmsController.redistribute capacity workers
    return ()
  | .rebalance budget deadBand workers => do
    let _ ← VmsController.rebalance double capacity budget deadBand workers
    return ()

end Operation

/-- The world with these heartbeats and this clock. -/
def hearing (world : World ι Unit) (outside : Outside) : World ι Unit := { world with outside := fun _ => outside }

/-- One operation, with the heartbeats that it finds. -/
def operate (view : View) (i : ι) (double : ℚ → ℚ) (capacity : Int) (world : World ι Unit)
    (event : Operation × Outside) :
    World ι Unit :=
  ((event.1.program double capacity).run (handler FileVariables view i) (hearing world event.2)).2

/-- Every placement row that the operation writes names a worker whose last reported labels contain those of the camera. -/
def Constrained (view : View) (i : ι) (double : ℚ → ℚ) (capacity : Int) (world : World ι Unit)
    (event : Operation × Outside) :
    Prop :=
  WritesOnly view i (fun _ key items => ∀ (cid : Int) name, key = placementRow (toString cid) →
    workerIn (stored items) = some name → Reaches event.2 world.vars cid name)
    (event.1.program double capacity) (hearing world event.2)

/-- Where `redistribute` or `rebalance` moves a camera, the worker that it is bound for reaches it. -/
def Guarded (view : View) (i : ι) (double : ℚ → ℚ) (capacity : Int) (world : World ι Unit)
    (event : Operation × Outside) :
    Prop :=
  match event.1 with
  | .redistribute workers => ∀ gones middle, Ends view i (Controller.releasedSlots vms) (hearing world event.2) gones middle →
      Along (Board.emptied (carriesOf capacity event.2) (liveOf event.2 workers))
        (fun board gone => Along (Board.shifted (carriesOf capacity event.2) (Board.others (liveOf event.2 workers) gone))
          (fun board cid => Led (fun name => ¬ Reaches event.2 world.vars cid name) (board.room (carriesOf capacity event.2))
            (Board.others (liveOf event.2 workers) gone))
          (Board.ids (board.units gone)) board)
        gones (boardOf world.vars)
  | .rebalance budget deadBand workers =>
      Along (evened double (carriesOf capacity event.2) deadBand (sorted (liveOf event.2 workers)))
        (EvensTo (Reaches event.2 world.vars) double (carriesOf capacity event.2) deadBand (sorted (liveOf event.2 workers)))
        (List.replicate budget.toNat ()) (boardOf world.vars)
  | _ => True

theorem retention_aside (cid : Int) (days : Option Int) :
    WritesOnly view i (fun _ key _ => Aside key) (retention cid days) world := by
  apply WritesOnly.bind
  · apply WritesOnly.write
    · intro items
      cases days with
      | none => trivial
      | some days => trivial
    · intro new middle _
      exact aside_retention cid
  · intro written middle _
    exact WritesOnly.ret _

theorem createCamera_aside (fields : Dict Value) :
    WritesOnly view i (fun _ key _ => Aside key) (createCamera fields) world := by
  unfold createCamera
  apply WritesOnly.reads_bind (ReadsOnly.ofExcept _)
  intro _ middle _
  dsimp only
  split
  · exact WritesOnly.reads trivial
  · apply WritesOnly.bind
    · apply WritesOnly.bind
      · apply WritesOnly.write
        · exact fun items => ReadsOnly.bind (ReadsOnly.value _) fun _ => trivial
        · exact fun _ _ _ => aside_nextId
      · exact fun _ _ _ => WritesOnly.reads (ReadsOnly.value _)
    intro cid counted _
    apply WritesOnly.reads_bind (ReadsOnly.value _)
    intro r _ _
    apply WritesOnly.reads_bind (ReadsOnly.value _)
    intro texts _ _
    apply WritesOnly.bind (WritesOnly.put (aside_cameras (toString cid)))
    intro index _ _
    apply WritesOnly.reads_bind (ReadsOnly.value _)
    intro days _ _
    apply WritesOnly.bind (retention_aside cid _)
    exact fun _ _ _ => WritesOnly.ret _

theorem constrained_of_assigns {double : ℚ → ℚ} {event : Operation × Outside}
    (assigns : WritesOnly view i (Assigns (Reaches event.2 still.vars)) (event.1.program double capacity) (hearing still event.2)) :
    Constrained view i double capacity still event :=
  assigns.mono fun _ _ _ assigns => assigns.row

theorem constrained_of_guarded {double : ℚ → ℚ} {event : Operation × Outside}
    (guarded : Guarded view i double capacity still event) : Constrained view i double capacity still event := by
  obtain ⟨operation, outside⟩ := event
  have steady : ∀ workers, Steady view i capacity workers (hearing still outside) (liveOf outside workers)
      (carriesOf capacity outside) := fun workers => steady_of_still rfl
  cases operation with
  | createCamera fields =>
    refine WritesOnly.mono ?_ (WritesOnly.bind (createCamera_aside fields) fun _ _ _ => WritesOnly.ret _)
    intro _ key _ aside cid name same
    exact absurd same (aside.2 (toString cid))
  | place cid workers =>
    apply constrained_of_assigns
    exact WritesOnly.bind (place_reaches rfl fun _ => rfl) fun _ _ _ => WritesOnly.ret _
  | ensurePlaced workers =>
    apply constrained_of_assigns
    refine WritesOnly.bind ?_ fun _ _ _ => WritesOnly.ret _
    apply WritesOnly.reads_bind ReadsOnly.cameras
    intro cams middle found
    have waits := found.waited ReadsOnly.cameras
    apply ensureRounds_reaches (waits.2.1.trans rfl)
    intro cid
    rw [waits.1]
    rfl
  | redistribute workers =>
    apply constrained_of_assigns
    refine WritesOnly.bind ?_ fun _ _ _ => WritesOnly.ret _
    apply WritesOnly.reads_bind (ReadsOnly.releasedSlots vms)
    intro gones middle found
    have waits := found.waited (ReadsOnly.releasedSlots vms)
    apply redistributeRounds_assigns ((steady workers).later waits.2.1 waits.2.2)
    rw [waits.1]
    have along := guarded gones middle found
    exact (along_congr (fun _ _ => along_congr (fun _ _ => led_iff_suits (fun _ => not_not.symm) _ _) _ _) _ _).mp along
  | rebalance budget deadBand workers =>
    apply constrained_of_assigns
    refine WritesOnly.bind ?_ fun _ _ _ => WritesOnly.ret _
    apply WritesOnly.reads_bind (ReadsOnly.candidates workers)
    intro names seen listed
    have waits := listed.waited (ReadsOnly.candidates workers)
    obtain rfl := (steady workers).seen _ seen names rfl (Nat.le_refl _) listed
    apply rebalanceRounds_assigns (fun name => mem_sorted.mp) ((steady workers).later waits.2.1 waits.2.2)
    rw [waits.1]
    exact guarded

def beatWith (name labels : String) : Heartbeat := ⟨name, .finite 0, [], [("labels", .str (.plain labels))]⟩

/-- One worker heartbeats, with these labels. -/
def onlyBeat (name labels : String) : Outside :=
  { quietOutside with heartbeats := fun _ => [name], heartbeat := fun _ _ => .ok (some (beatWith name labels)) }

/-- The slot of `w-1` has been released. -/
def retired : World Unit Unit :=
  ⟨(Versioned.empty 1000).write (vms.slotKey "w-1") (stored (Slot.toItems ⟨"w-1", "p-1", .finite 0, true, 1⟩)),
    fun _ => (),
    fun _ => quietOutside, 0⟩

def labelled : Dict Value :=
  [("source", .str (.plain "driverpack://file/gate")), ("labels", .list [.str (.plain "vlan:cctv-a")])]

/-- A camera is created and placed on `w-1`; then its slot is emptied while another worker heartbeats with these labels. -/
def scaleIn (labels : String) : List (Operation × Outside) :=
  [(.createCamera labelled, quietOutside), (.place 1 none, onlyBeat "w-1" "vlan:cctv-a"),
    (.redistribute none, onlyBeat "w-2" labels)]

def placedWorld : World Unit Unit := (((scaleIn "").take 2).foldl (operate {} () (fun load => load) 50) retired)

/-- The world that `redistribute` finds, with `w-2` on a server that reaches nothing. -/
def unlabelled : World Unit Unit := hearing placedWorld (onlyBeat "w-2" "")

def moved : World Unit Unit :=
  (((Operation.redistribute none).program (fun load => load) 50).run (handler FileVariables {} ()) unlabelled).2

end EdgeVms.Verified.Reachability
