import EdgeVms.Verified.Vms.ReportedState

/-! # Epochs are held for what is assigned

An epoch and its lease are taken before the actuator is asked, and let go of when a
camera stops.  The stop loop walks what is taken to run: a unit that leaves the
assignment while its camera is not, after a start that failed or a pipeline that was
lost, keeps its epoch.
-/

namespace EdgeVms.Verified.HeldEpochs

open Process Python Platform Vms

/-- The worker holds an epoch or a lease of the unit. -/
def Holds (me : VmsWorker) (unit : String) : Prop := (me.epochs.get? unit).isSome ∨ (me.leases.get? unit).isSome

/-- Every camera that the actuator runs has a lease. -/
def Leased (me : VmsWorker) : Prop := ∀ cid ∈ me.pipelines, (me.leases.get? (toString cid)).isSome

variable {answers : Surroundings VmsWorker} {me me' me'' : VmsWorker} {cid : Int}

/-! ## A start takes -/

/-- What a start or a restart of a camera, and no more of the memory, may change. -/
structure Takes (cid : Int) (me me' : VmsWorker) : Prop where
  kept : ∀ unit, Holds me unit → Holds me' unit
  only : ∀ unit, Holds me' unit → Holds me unit ∨ unit = toString cid
  reconciler : me'.reconciler = me.reconciler
  leased : Leased me → Leased me'

theorem Takes.refl (cid : Int) (me : VmsWorker) : Takes cid me me := ⟨fun _ => id, fun _ => .inl, rfl, id⟩

theorem Takes.trans (first : Takes cid me me') (second : Takes cid me' me'') : Takes cid me me'' where
  kept unit held := second.kept unit (first.kept unit held)
  only unit held := (second.only unit held).elim (first.only unit) .inr
  reconciler := second.reconciler.trans first.reconciler
  leased leased := second.leased (first.leased leased)

/-- A pipeline of a camera that has a lease comes or goes. -/
theorem takes_pipelines (lease : (me.leases.get? (toString cid)).isSome) {pipelines : List Int}
    (runs : ∀ other ∈ pipelines, other ∈ me.pipelines ∨ other = cid) :
    Takes cid me { me with pipelines := pipelines } where
  kept _ := id
  only _ := .inl
  reconciler := rfl
  leased leased other member := by
    obtain before | rfl := runs other member
    · exact leased other before
    · exact lease

theorem actuator_takes {verb : String} (starts : verb = "start" ∨ verb = "restart") (row : Dict Value)
    (lease : (me.leases.get? (toString cid)).isSome) :
    Leaves answers (fun _ me' => Takes cid me me') (VmsWorker.actuator verb cid row) me := by
  have fewer : ∀ other ∈ me.pipelines.filter (· ≠ cid), other ∈ me.pipelines ∨ other = cid :=
    fun other member => .inl (List.mem_filter.mp member).1
  have one_more : ∀ pipelines : List Int, (∀ other ∈ pipelines, other ∈ me.pipelines ∨ other = cid) →
      ∀ other ∈ pipelines.filter (· ≠ cid) ++ [cid], other ∈ me.pipelines ∨ other = cid := by
    intro pipelines runs other member
    obtain member | member := List.mem_append.mp member
    · exact runs other (List.mem_filter.mp member).1
    · exact .inr (List.mem_singleton.mp member)
  unfold VmsWorker.actuator
  apply Leaves.remember
  obtain rfl | rfl := starts
  · rw [if_neg (by decide), if_neg (by decide)]
    apply Leaves.actuator
    · intro n error answered
      exact .refl cid me
    · intro n up answered
      apply Leaves.remember
      apply Leaves.ret
      cases up with
      | false => exact .refl cid me
      | true => exact takes_pipelines lease (one_more _ fun other => .inl)
  · rw [if_neg (by decide), if_pos (by decide)]
    apply Leaves.actuator
    · intro n error answered
      exact takes_pipelines lease fewer
    · intro n up answered
      apply Leaves.remember
      apply Leaves.ret
      cases up with
      | false => exact takes_pipelines lease fewer
      | true => exact takes_pipelines lease (one_more _ fewer)

theorem mayWrite_leased (unit : String) :
    Leaves answers (fun result me' => me' = me ∧ (result = .ok true → (me.leases.get? unit).isSome))
      (Worker.mayWrite me.toWorker unit) me := by
  unfold Worker.mayWrite
  cases found : me.leases.get? unit with
  | none =>
    apply Leaves.ret
    refine ⟨rfl, fun may => ?_⟩
    cases may
  | some lease => exact Leaves.mono (fun _ _ same => ⟨same, fun _ => rfl⟩) (Leaves.keeps (KeepsMemory.leaseMayWrite lease))

theorem gate_takes {verb : String} (starts : verb = "start" ∨ verb = "restart") (row : Dict Value)
    (taken : Takes cid me me') :
    Leaves answers (fun _ me'' => Takes cid me me'') (do
      let me ← Program.recollect
      let may ← Worker.mayWrite me.toWorker (toString cid)
      if !may then return false
      VmsWorker.actuator verb cid row) me' := by
  apply Leaves.recollect
  refine Leaves.sequel (mayWrite_leased (toString cid)) ?_ ?_
  · rintro error after ⟨rfl, -⟩
    exact taken
  · rintro may after ⟨rfl, leased⟩
    cases may with
    | false => exact Leaves.ret taken
    | true => exact Leaves.mono (fun _ _ more => taken.trans more) (actuator_takes starts row (leased rfl))

theorem isSome_set {α : Type} (table : Dict α) (unit unit' : String) (value : α) :
    ((table.set unit value).get? unit').isSome ↔ unit' = unit ∨ (table.get? unit').isSome := by
  by_cases same : unit' = unit
  · rw [same, Dict.get?_set_self]
    exact ⟨fun _ => .inl rfl, fun _ => rfl⟩
  · rw [Dict.get?_set_other _ _ same, or_iff_right same]

theorem takes_epoch (epoch : Int) (lease : Lease) : Takes cid me (me.withBase
    { me.toWorker with
      epochs := me.epochs.set (toString cid) epoch
      leases := me.leases.set (toString cid) lease }) where
  kept _ held := held.imp (fun epoch => (isSome_set ..).mpr (.inr epoch)) fun lease => (isSome_set ..).mpr (.inr lease)
  only unit held := by
    obtain held | held := held
    · exact ((isSome_set ..).mp held).symm.imp .inl id
    · exact ((isSome_set ..).mp held).symm.imp .inr id
  reconciler := rfl
  leased leased other member := (isSome_set ..).mpr (.inr (leased other member))

theorem actuate_takes {verb : String} (starts : verb = "start" ∨ verb = "restart") (cid : Int) (row : Dict Value) :
    Leaves answers (fun _ me' => Takes cid me me') (VmsWorker.actuate verb cid row) me := by
  have other : verb ≠ "stop" := by
    obtain rfl | rfl := starts <;> decide
  unfold VmsWorker.actuate
  rw [if_neg other]
  apply Leaves.recollect
  cases me.recordingAllowed with
  | false => exact Leaves.ret (.refl cid me)
  | true =>
    rw [if_neg (by decide)]
    unfold VmsWorker.epochFor
    split
    · exact gate_takes starts _ (.refl cid me)
    · rw [bind_assoc]
      refine Leaves.sequel ((ComesTo.takeEpoch vms me.toWorker (toString cid)).leaves (KeepsMemory.takeEpoch _ _ _)) ?_ ?_
      · rintro error after ⟨rfl, -⟩
        exact .refl cid _
      · rintro taken after ⟨rfl, comes⟩
        obtain ⟨epoch, lease, rfl⟩ := comes _ rfl
        apply Leaves.remember
        exact gate_takes starts _ (takes_epoch epoch lease)

/-! ## The loop over the desired cameras -/

structure Starts (cids : List Int) (me me' : VmsWorker) : Prop where
  kept : ∀ unit, Holds me unit → Holds me' unit
  only : ∀ unit, Holds me' unit → Holds me unit ∨ ∃ cid ∈ cids, unit = toString cid
  running : ∀ cid, cid ∉ cids → (me'.reconciler.actual.has cid = true ↔ me.reconciler.actual.has cid = true)
  leased : Leased me → Leased me'

theorem Starts.refl (cids : List Int) (me : VmsWorker) : Starts cids me me :=
  ⟨fun _ => id, fun _ => .inl, fun _ _ => .rfl, id⟩

theorem Starts.later {cids : List Int} (starts : Starts cids me me') : Starts (cid :: cids) me me' where
  kept := starts.kept
  only unit held := (starts.only unit held).imp_right fun ⟨cid, member, same⟩ =>
    ⟨cid, List.mem_cons_of_mem _ member, same⟩
  running other absent := starts.running other fun member => absent (List.mem_cons_of_mem _ member)
  leased := starts.leased

/-- One camera, then the rest of them. -/
theorem Takes.starts {cids : List Int} {loop : Reconciler} (taken : Takes cid me me')
    (same : ∀ other, other ≠ cid → loop.actual.has other = me'.reconciler.actual.has other)
    (starts : Starts cids { me' with reconciler := loop } me'') : Starts (cid :: cids) me me'' where
  kept unit held := starts.kept unit (taken.kept unit held)
  only unit held := by
    obtain held | ⟨other, member, named⟩ := starts.only unit held
    · obtain held | named := taken.only unit held
      · exact .inl held
      · exact .inr ⟨cid, List.mem_cons_self, named⟩
    · exact .inr ⟨other, List.mem_cons_of_mem _ member, named⟩
  running other absent := by
    obtain ⟨others, absent⟩ := not_or.mp (List.mem_cons.not.mp absent)
    rw [starts.running other absent]
    show loop.actual.has other = true ↔ _
    rw [same other others, taken.reconciler]
  leased leased := starts.leased (taken.leased leased)

theorem startRounds_starts (now : ℚ) (desired : List (Int × Camera)) (me : VmsWorker) :
    Leaves answers (fun _ me' => Starts (desired.map Prod.fst) me me') (VmsWorker.startRounds now desired) me := by
  induction desired generalizing me with
  | nil => exact Leaves.ret (.refl [] me)
  | cons entry rest ih =>
    obtain ⟨cid, cam⟩ := entry
    rw [VmsWorker.startRounds, List.map_cons]
    apply Leaves.recollect
    split
    · exact Leaves.mono (fun _ _ starts => starts.later) (ih me)
    · have verb : (if me.reconciler.actual.has cid then "restart" else "start") = "start" ∨
          (if me.reconciler.actual.has cid then "restart" else "start") = "restart" := by
        split
        · exact .inr rfl
        · exact .inl rfl
      refine Leaves.sequel (actuate_takes verb cid cam.row) ?_ ?_
      · intro error after taken
        exact taken.starts (fun _ _ => rfl) (.refl _ after)
      · intro up after taken
        cases up with
        | true =>
          apply Leaves.remember
          refine Leaves.sequel (ih _) (fun _ _ starts => taken.starts ?_ starts) fun _ _ starts =>
            Leaves.ret (taken.starts ?_ starts)
          all_goals
            intro other others
            show (after.reconciler.actual.set cid cam.revision).has other = _
            rw [Table.has_set, decide_eq_false (Ne.symm others), Bool.false_or]
        | false =>
          apply Leaves.random
          intro random
          apply Leaves.remember
          have fails : ∀ other, other ≠ cid →
              (after.reconciler.fail cid now random).actual.has other = after.reconciler.actual.has other :=
                fun _ _ => rfl
          exact Leaves.sequel (ih _) (fun _ _ starts => taken.starts fails starts) fun _ _ starts =>
            Leaves.ret (taken.starts fails starts)

/-! ## The stop loop -/

/-- What the stop loop does over these cameras. -/
structure Stops (desired : Table Camera) (cids : List Int) (me me' : VmsWorker) : Prop where
  holds : ∀ unit, Holds me' unit ↔ Holds me unit ∧ ∀ cid ∈ cids, desired.has cid = false → unit ≠ toString cid
  leased : Leased me → Leased me'

theorem isSome_pop {α : Type} (table : Dict α) (unit unit' : String) :
    ((table.pop unit).get? unit').isSome ↔ (table.get? unit').isSome ∧ unit' ≠ unit := by
  by_cases same : unit' = unit
  · rw [same, Dict.get?_pop_self]
    exact ⟨fun nothing => (Bool.false_ne_true nothing).elim, fun both => absurd rfl both.2⟩
  · rw [Dict.get?_pop_other _ same, and_iff_left same]

theorem holds_release (unit unit' : String) :
    Holds (me.withBase (me.release unit)) unit' ↔ Holds me unit' ∧ unit' ≠ unit := by
  show ((me.epochs.pop unit).get? unit').isSome ∨ ((me.leases.pop unit).get? unit').isSome ↔ _
  rw [isSome_pop, isSome_pop, ← or_and_right]
  rfl

/-- The pipeline goes before its lease. -/
theorem leased_release (leased : Leased me) {pipelines : List Int} {unit : String}
    (runs : ∀ cid ∈ pipelines, cid ∈ me.pipelines ∧ toString cid ≠ unit) (loop : Reconciler) :
    Leased { me.withBase (me.release unit) with pipelines := pipelines, reconciler := loop } := by
  intro cid member
  obtain ⟨before, other⟩ := runs cid member
  exact (isSome_pop ..).mpr ⟨leased cid before, other⟩

theorem actuate_stop (cid : Int) (row : Dict Value) (me : VmsWorker) :
    Leaves answers (fun result me' => result = .ok true ∧ me' =
        { me.withBase (me.release (toString cid)) with pipelines := me.pipelines.filter (· ≠ cid) })
      (VmsWorker.actuate "stop" cid row) me := by
  unfold VmsWorker.actuate VmsWorker.actuator
  rw [if_pos rfl, bind_assoc]
  apply Leaves.remember
  rw [if_pos rfl]
  apply Leaves.remember
  exact Leaves.ret ⟨rfl, rfl⟩

theorem stopRounds_stops (desired : Table Camera) (cids : List Int) (me : VmsWorker) :
    Leaves answers (fun result me' => (∃ actions, result = .ok actions) ∧ Stops desired cids me me')
      (VmsWorker.stopRounds desired cids) me := by
  induction cids generalizing me with
  | nil =>
    apply Leaves.ret
    refine ⟨⟨_, rfl⟩, fun unit => ?_, id⟩
    simp
  | cons cid rest ih =>
    rw [VmsWorker.stopRounds]
    split
    next wanted =>
      refine Leaves.mono ?_ (ih me)
      rintro result after ⟨returned, stops⟩
      refine ⟨returned, fun unit => ?_, stops.leased⟩
      rw [stops.holds, List.forall_mem_cons, wanted]
      simp
    next unwanted =>
      refine Leaves.sequel (actuate_stop cid _ me) ?_ ?_
      · rintro error after ⟨returned, -⟩
        cases returned
      · rintro up after ⟨-, rfl⟩
        apply Leaves.remember
        refine Leaves.sequel (ih _) ?_ ?_
        · rintro error after ⟨⟨actions, returned⟩, -⟩
          cases returned
        · rintro actions after ⟨-, stops⟩
          apply Leaves.ret
          refine ⟨⟨_, rfl⟩, fun unit => ?_, fun leased => stops.leased (leased_release leased ?_ _)⟩
          · have released : ∀ loop pipelines, Holds { me.withBase (me.release (toString cid)) with
                pipelines := pipelines, reconciler := loop } unit ↔ Holds me unit ∧ unit ≠ toString cid :=
              fun _ _ => holds_release (toString cid) unit
            rw [stops.holds, released, List.forall_mem_cons, and_assoc]
            simp [Bool.eq_false_iff.mpr unwanted]
          · intro other member
            obtain ⟨before, others⟩ := List.mem_filter.mp member
            exact ⟨before, fun same => of_decide_eq_true others (toString_inj same)⟩

/-! ## A pass -/

/-- The number of a camera, in its row. -/
def numberIn (items : Option Items) : Except Error Int := do (← Dict.item (← row (rowValues items)) "id").toInt

/-- Camera rows lie under their numbers. -/
def Filed (answers : Surroundings VmsWorker) : Prop := ∀ n unit items index cid,
  answers n (.get (VmsController.cameraKey unit)) = .ok (items, index) → numberIn items = .ok cid → toString cid = unit

theorem refreshRounds_filed (filed : Filed answers) (units : List String) (rows : List Camera) (me : VmsWorker) :
    Leaves answers (fun result me' => me' = me ∧ ∀ rows', result = .ok rows' →
        ∀ cam ∈ rows', cam ∈ rows ∨ toString cam.id ∈ units) (VmsWorker.refreshRounds units rows) me := by
  induction units generalizing rows with
  | nil =>
    apply Leaves.ret
    refine ⟨rfl, fun rows' returned cam member => ?_⟩
    cases returned
    exact .inl member
  | cons unit rest ih =>
    have raised (error : Exn) : me = me ∧ ∀ rows', (Except.error error : Except Exn (List Camera)) = .ok rows' →
        ∀ cam ∈ rows', cam ∈ rows ∨ toString cam.id ∈ unit :: rest := by
      refine ⟨rfl, fun rows' returned => ?_⟩
      cases returned
    rw [VmsWorker.refreshRounds]
    refine Leaves.get (fun _ error _ => raised error) ?_
    rintro n ⟨items, index⟩ answered
    dsimp only
    split
    · refine Leaves.mono ?_ (ih rows)
      rintro result after ⟨same, read⟩
      exact ⟨same, fun rows' returned cam member => (read rows' returned cam member).imp_right (List.mem_cons_of_mem _)⟩
    · refine Leaves.value (fun error _ => raised _) ?_
      intro r parsed
      refine Leaves.value (fun error _ => raised _) ?_
      intro cid number
      refine Leaves.value (fun error _ => raised _) ?_
      intro revision _
      refine Leaves.value (fun error _ => raised _) ?_
      intro enabled _
      have named : toString cid = unit := filed n unit items index cid answered (by rw [numberIn, parsed]; exact number)
      refine Leaves.mono ?_ (ih _)
      rintro result after ⟨same, read⟩
      refine ⟨same, fun rows' returned cam member => ?_⟩
      obtain before | later := read rows' returned cam member
      · obtain before | here := List.mem_append.mp before
        · exact .inl before
        · rw [List.mem_singleton.mp here]
          exact .inr (named ▸ List.mem_cons_self)
      · exact .inr (List.mem_cons_of_mem _ later)

/-- The pass, once the assignment is read. -/
def afterRead (a : Assignment) : Program VmsWorker (List (String × Int)) := do
  Program.remember fun me => { me with assignmentRev := a.rev }
  let rows ← VmsWorker.refreshRounds a.units []
  Program.remember fun me => { me with rows := rows }
  let actions ← VmsWorker.reconcile (← VmsWorker.now)
  Program.remember fun me => { me with passes := me.passes + 1 }
  return actions

/-- What a pass that returns has done: started some of what is desired, then stopped what is not. -/
structure Reconciles (units : List String) (me me' : VmsWorker) : Prop where
  assigned : ∀ unit, Holds me' unit → unit ∉ units →
    Holds me unit ∧ ∀ cid, me.reconciler.actual.has cid → unit ≠ toString cid
  kept : ∀ unit, Holds me unit → unit ∉ units → (∀ cid, me.reconciler.actual.has cid → unit ≠ toString cid) →
    Holds me' unit

theorem reconciles {mid : VmsWorker} {units : List String} {desired : Table Camera}
    (named : ∀ cid, desired.has cid = true → toString cid ∈ units) (starts : Starts desired.keys me mid)
    (stops : Stops desired mid.reconciler.actual.keys mid me') : Reconciles units me me' := by
  -- the cameras of other units are not desired, so they run as before the pass
  have others {unit : String} (absent : unit ∉ units) {cid : Int} (same : unit = toString cid) :
      desired.has cid = false ∧ (mid.reconciler.actual.has cid = true ↔ me.reconciler.actual.has cid = true) := by
    have unwanted : ¬ desired.has cid = true := fun wanted => absent (same ▸ named cid wanted)
    exact ⟨Bool.eq_false_iff.mpr unwanted, starts.running cid fun member => unwanted (Table.has_iff_mem.mpr member)⟩
  constructor
  case assigned =>
    intro unit held absent
    obtain ⟨mids, running⟩ := (stops.holds unit).mp held
    obtain before | ⟨cid, member, same⟩ := starts.only unit mids
    · refine ⟨before, fun cid runs same => ?_⟩
      obtain ⟨unwanted, still⟩ := others absent same
      exact running cid (Table.has_iff_mem.mp (still.mpr runs)) unwanted same
    · have unwanted := (others absent same).1
      rw [Table.has_iff_mem.mpr member] at unwanted
      cases unwanted
  case kept =>
    intro unit held absent still
    refine (stops.holds unit).mpr ⟨starts.kept unit held, fun cid runs unwanted same => ?_⟩
    exact still cid ((others absent same).2.mp (Table.has_iff_mem.mpr runs)) same

theorem reconcile_reconciles {units : List String} (named : ∀ cam ∈ me.rows, toString cam.id ∈ units) (now : ℚ) :
    Leaves answers
      (fun result me' => (Leased me → Leased me') ∧ ∀ actions, result = .ok actions → Reconciles units me me')
      (VmsWorker.reconcile now) me := by
  have desired : ∀ cid, (Reconciler.desired me.rows).has cid = true → toString cid ∈ units := by
    intro cid wanted
    obtain ⟨cam, member, -, rfl⟩ := (Reconciler.has_desired me.rows cid).mp wanted
    exact named cam member
  unfold VmsWorker.reconcile
  apply Leaves.recollect
  refine Leaves.sequel (startRounds_starts now _ me) ?_ ?_
  · intro error after starts
    refine ⟨starts.leased, fun actions returned => ?_⟩
    cases returned
  · intro started mid starts
    apply Leaves.recollect
    refine Leaves.sequel (stopRounds_stops _ _ mid) ?_ ?_
    · rintro error after ⟨⟨actions, returned⟩, -⟩
      cases returned
    · rintro stopped after ⟨-, stops⟩
      exact Leaves.ret ⟨fun leased => stops.leased (starts.leased leased), fun _ _ => reconciles desired starts stops⟩

theorem afterRead_reconciles (filed : Filed answers) (a : Assignment) (me : VmsWorker) :
    Leaves answers
      (fun result me' => (Leased me → Leased me') ∧ ∀ actions, result = .ok actions → Reconciles a.units me me')
      (afterRead a) me := by
  unfold afterRead
  apply Leaves.remember
  refine Leaves.sequel (refreshRounds_filed filed a.units [] _) ?_ ?_
  · rintro error after ⟨rfl, -⟩
    refine ⟨id, fun actions returned => ?_⟩
    cases returned
  · rintro rows after ⟨rfl, read⟩
    have named : ∀ cam ∈ rows, toString cam.id ∈ a.units :=
      fun cam member => (read rows rfl cam member).resolve_left List.not_mem_nil
    apply Leaves.remember
    refine Leaves.keeps_bind (fun _ _ => trivial) ?_ ?_
    · intro error
      refine ⟨id, fun actions returned => ?_⟩
      cases returned
    · intro now
      refine Leaves.sequel (reconcile_reconciles named now) ?_ ?_
      · rintro error after ⟨leased, -⟩
        refine ⟨leased, fun actions returned => ?_⟩
        cases returned
      · rintro actions after ⟨leased, returned⟩
        apply Leaves.remember
        obtain ⟨assigned, kept⟩ := returned actions rfl
        exact Leaves.ret ⟨leased, fun _ _ => ⟨assigned, kept⟩⟩

/-! ## What a pass reads -/

/-- The assignment that a pass reads. -/
def assignmentRead (answers : Surroundings VmsWorker) (me : VmsWorker) : Except Exn Assignment :=
  ((Worker.assignment vms me.toWorker).run (within answers) (me, 1)).1

theorem reconcileOnce_eq : VmsWorker.reconcileOnce =
    Program.recollect >>= fun me => Worker.assignment vms me.toWorker >>= afterRead := by
  simp only [VmsWorker.reconcileOnce, VmsWorker.refresh, bind_assoc]
  rfl

/-- A pass is one after its assignment, or it raises before anything changed. -/
theorem run_reconcileOnce (answers : Surroundings VmsWorker) (me : VmsWorker) :
    (∃ a n, assignmentRead answers me = .ok a ∧
        VmsWorker.reconcileOnce.run (within answers) (me, 0) = (afterRead a).run (within answers) (me, n)) ∨
      ∃ error n, assignmentRead answers me = .error error ∧
        VmsWorker.reconcileOnce.run (within answers) (me, 0) = (.error error, (me, n)) := by
  have keeps : Leaves answers (fun _ after => after = me) (Worker.assignment vms me.toWorker) me :=
    Leaves.keeps (KeepsMemory.assignment _ _)
  have kept := keeps 1
  rw [reconcileOnce_eq, run_recall, Proc.bind_eq, Proc.run_bind, assignmentRead]
  generalize (Worker.assignment vms me.toWorker).run (within answers) (me, 1) = run at kept ⊢
  obtain ⟨result, memory, n⟩ := run
  obtain rfl : memory = me := kept
  cases result with
  | ok a => exact .inl ⟨a, n, rfl, rfl⟩
  | error error => exact .inr ⟨error, n, rfl, rfl⟩

/-! ## The other passes -/

theorem Leased.of_keys {me' : VmsWorker} (leased : Leased me) (pipelines : me'.pipelines = me.pipelines)
    (keys : me'.leases.map Prod.fst = me.leases.map Prod.fst) : Leased me' := by
  intro cid member
  rw [pipelines] at member
  rw [← Dict.mem_keys, keys, Dict.mem_keys]
  exact leased cid member

theorem fence_leased (why : String) (leased : Leased me) :
    Leaves answers (fun _ me' => Leased me') (VmsWorker.fence why) me := by
  unfold VmsWorker.fence
  apply Leaves.recollect
  split
  · exact Leaves.ret leased
  · apply Leaves.remember
    apply Leaves.ret
    intro cid member
    cases member

theorem lostRounds_leased (assigned lost : List String) (leased : Leased me) :
    Leaves answers (fun _ me' => Leased me') (VmsWorker.lostRounds assigned lost) me := by
  induction lost generalizing me with
  | nil => exact Leaves.ret leased
  | cons unit rest ih =>
    rw [VmsWorker.lostRounds]
    split
    · refine Leaves.value (fun error _ => leased) ?_
      intro cid number
      unfold VmsWorker.actuator
      rw [bind_assoc]
      apply Leaves.remember
      rw [if_pos rfl]
      apply Leaves.remember
      apply ih
      apply leased_release leased
      intro other member
      obtain ⟨before, others⟩ := List.mem_filter.mp member
      refine ⟨before, ?_⟩
      rintro rfl
      -- the unit that is let go of is the number of the pipeline that was stopped
      have same : (Text.plain (toString other)).toInt = .ok other := Text.toInt_repr other
      rw [same] at number
      exact of_decide_eq_true others (Except.ok.inj number)
    · apply Leaves.recollect
      exact fence_leased _ leased

theorem leasePass_leased (leased : Leased me) : Leaves answers (fun _ me' => Leased me') VmsWorker.leasePass me := by
  unfold VmsWorker.leasePass
  apply Leaves.recollect
  refine Leaves.sequel ((ComesTo.renewSlot vms me.toWorker).leaves (KeepsMemory.renewSlot _ _)) ?_ ?_
  · rintro error after ⟨rfl, -⟩
    exact leased
  · rintro renewed after ⟨rfl, comes⟩
    obtain ⟨mine, slot, rfl⟩ := comes _ rfl
    apply Leaves.remember
    split
    · exact Leaves.sequel (fence_leased _ (leased.of_keys rfl rfl)) (fun _ _ leased => leased) fun _ _ leased =>
        Leaves.ret leased
    · refine Leaves.sequel ((ComesTo.renewLeases _).leaves (KeepsMemory.renewLeases _)) ?_ ?_
      · rintro error after' ⟨rfl, -⟩
        exact leased.of_keys rfl rfl
      · rintro renewed after' ⟨rfl, comes⟩
        obtain ⟨lost, leases, keys, rfl⟩ := comes _ rfl
        apply Leaves.remember
        have leased : Leased (after.withBase { after.toWorker with slot := slot, leases := leases }) :=
          leased.of_keys rfl keys
        split
        · exact Leaves.ret leased
        · refine Leaves.keeps_bind (KeepsMemory.assignment _ _) (fun _ => leased) ?_
          intro a
          exact Leaves.sequel (lostRounds_leased _ _ leased) (fun _ _ leased => leased) fun _ _ leased =>
            Leaves.ret leased

theorem observe_leased (cid : Int) (kind : String) (fields : Dict Field) (leased : Leased me) :
    Leaves answers (fun _ me' => Leased me') (VmsWorker.observe cid kind fields) me := by
  have appends : ∀ log t, KeepsMemory (some <$> VmsWorker.append log t fields) := by
    intro log t
    rw [map_eq_pure_bind]
    refine KeepsMemory.bind ?_ fun path => KeepsMemory.ret _
    unfold VmsWorker.append
    split
    · trivial
    · refine KeepsMemory.bind (KeepsMemory.value _) fun path => ?_
      refine KeepsMemory.bind (KeepsMemory.bind (fun _ => trivial) KeepsMemory.ofExcept) fun _ => ?_
      split <;> trivial
  unfold VmsWorker.observe
  split
  · exact Leaves.raise leased
  · apply Leaves.recollect
    split
    · refine Leaves.keeps_bind KeepsMemory.wall (fun _ => leased) ?_
      intro t
      apply Leaves.remember
      refine Leaves.mono ?_ (Leaves.keeps (appends _ t))
      rintro result after rfl
      exact leased.of_keys rfl rfl
    · exact Leaves.ret leased

theorem pumpOnce_leased (leased : Leased me) : Leaves answers (fun _ me' => Leased me') VmsWorker.pumpOnce me := by
  have posts : ∀ (posted : List Posted) {me : VmsWorker}, Leased me →
      Leaves answers (fun _ me' => Leased me') (VmsWorker.postedRounds posted) me := by
    intro posted
    induction posted with
    | nil => exact fun leased => Leaves.ret leased
    | cons event rest ih =>
      exact fun leased => Leaves.sequel (observe_leased _ _ _ leased) (fun _ _ leased => leased) fun _ _ leased =>
        ih leased
  have deaths : ∀ (dead : List Int) {me : VmsWorker}, Leased me →
      Leaves answers (fun _ me' => Leased me') (VmsWorker.deadRounds dead) me := by
    intro dead
    induction dead with
    | nil => exact fun leased => Leaves.ret leased
    | cons cid rest ih =>
      intro me leased
      rw [VmsWorker.deadRounds]
      refine Leaves.keeps_bind (fun _ _ => trivial) (fun _ => leased) fun now => ?_
      refine Leaves.random fun random => ?_
      apply Leaves.remember
      exact Leaves.sequel (observe_leased cid "silent" [] (leased.of_keys rfl rfl)) (fun _ _ leased => leased) fun _ _ leased =>
        ih leased
  unfold VmsWorker.pumpOnce
  have drains : Leaves answers (fun _ me' => Leased me') VmsWorker.pump me := by
    intro n cid member
    exact leased cid (List.mem_filter.mp member).1
  refine Leaves.sequel drains (fun _ _ leased => leased) ?_
  intro drained after leased
  exact Leaves.sequel (posts _ leased) (fun _ _ leased => leased) fun _ _ leased => deaths _ leased

theorem pass_reconcile (answers : Surroundings VmsWorker) (me : VmsWorker) :
    pass me (answers, .reconcile) = (VmsWorker.reconcileOnce.run (within answers) (me, 0)).2.1 := by
  have program : Pass.program .reconcile = VmsWorker.reconcileOnce.bind fun _ => Proc.ret () := rfl
  rw [pass, program, Proc.run_bind]
  generalize VmsWorker.reconcileOnce.run (within answers) (me, 0) = run
  obtain ⟨result, memory, n⟩ := run
  cases result <;> rfl

theorem pass_leased (me : VmsWorker) (event : Surroundings VmsWorker × Pass) (filed : Filed event.1)
    (leased : Leased me) :
    Leased (pass me event) := by
  obtain ⟨answers, kind⟩ := event
  cases kind with
  | reconcile =>
    rw [pass_reconcile]
    obtain ⟨a, n, -, run_eq⟩ | ⟨error, n, -, run_eq⟩ := run_reconcileOnce answers me
    · rw [run_eq]
      exact (afterRead_reconciles filed a me n).1 leased
    · rw [run_eq]
      exact leased
  | lease =>
    have leaves : Leaves answers (fun _ me' => Leased me') (Pass.program .lease) me :=
      Leaves.sequel (leasePass_leased leased) (fun _ _ leased => leased) fun _ _ leased => Leaves.ret leased
    exact leaves 0
  | pump => exact pumpOnce_leased leased 0
  | fence why => exact fence_leased why leased 0

/-! ## Every run -/

/-- The claims on what a worker holds. -/
structure Held (me : VmsWorker) (units : List String) : Prop where
  assigned : ∀ unit, Holds me unit → unit ∈ units
  leased : Leased me

/-- After a pass of an unfenced worker that returns, it holds what it was assigned. -/
def HeldAfter (me : VmsWorker) (event : Surroundings VmsWorker × Pass) : Prop :=
  event.2 = .reconcile → me.recordingAllowed = true →
    ∀ a actions, assignmentRead event.1 me = .ok a →
      (VmsWorker.reconcileOnce.run (within event.1) (me, 0)).1 = .ok actions → Held (pass me event) a.units

/-- The units that have left the assignment when a pass reads it, and whose epoch is held, are those of cameras
that are taken to run. -/
def LeaveRunning (me : VmsWorker) (event : Surroundings VmsWorker × Pass) : Prop :=
  event.2 = .reconcile → me.recordingAllowed = true →
    ∀ a actions, assignmentRead event.1 me = .ok a →
      (VmsWorker.reconcileOnce.run (within event.1) (me, 0)).1 = .ok actions →
      ∀ unit, Holds me unit → unit ∉ a.units → ∃ cid, me.reconciler.actual.has cid = true ∧ unit = toString cid

theorem heldAfter_iff {event : Surroundings VmsWorker × Pass} (filed : Filed event.1) (leased : Leased me) :
    HeldAfter me event ↔ LeaveRunning me event := by
  have after := pass_leased me event filed leased
  obtain ⟨answers, kind⟩ := event
  have does (a : Assignment) (actions : List (String × Int)) (read : assignmentRead answers me = .ok a)
      (returned : (VmsWorker.reconcileOnce.run (within answers) (me, 0)).1 = .ok actions) :
      Reconciles a.units me (pass me (answers, .reconcile)) := by
    rw [pass_reconcile]
    obtain ⟨a', n, read', run_eq⟩ | ⟨error, n, raised, -⟩ := run_reconcileOnce answers me
    · obtain rfl := Except.ok.inj (read'.symm.trans read)
      rw [run_eq] at returned ⊢
      exact (afterRead_reconciles filed a' me n).2 actions returned
    · rw [raised] at read
      cases read
  constructor
  · intro holds kind allowed a actions read returned unit held absent
    subst kind
    by_contra still
    rw [not_exists] at still
    have kept := (does a actions read returned).kept unit held absent fun cid runs same => still cid ⟨runs, same⟩
    exact absent ((holds rfl allowed a actions read returned).assigned unit kept)
  · intro leave kind allowed a actions read returned
    subst kind
    refine ⟨fun unit held => ?_, after⟩
    by_contra absent
    obtain ⟨before, running⟩ := (does a actions read returned).assigned unit held absent
    obtain ⟨cid, runs, same⟩ := leave rfl allowed a actions read returned unit before absent
    exact running cid runs same

theorem filed_standing {stored : Key → Option Items} {outside : Outside} (rows : ∀ unit cid,
    numberIn (stored (VmsController.cameraKey unit)) = .ok cid →
      toString cid = unit) : Filed (standing stored outside) := by
  intro n unit items index cid answered number
  obtain ⟨rfl, -⟩ := Prod.mk.inj (Except.ok.inj answered)
  exact rows unit cid number

/-- The assignment of `w-1` without camera 7. -/
def withoutSeven (key : Key) : Option Items :=
  if key = ["vms", "workers", "w-1"] then some [("units", .plain ""), ("rev", .plain "2")] else storedSeven "1" key

theorem seven_filed (unit : String) (cid : Int)
    (number : numberIn (storedSeven "1" (VmsController.cameraKey unit)) = .ok cid) : toString cid = unit := by
  have config : VmsController.cameraKey unit = ["vms", "cameras", unit] := rfl
  rw [config, storedSeven, if_neg (by simp)] at number
  by_cases seven : unit = "7"
  · subst seven
    have seven : numberIn (storedSeven "1" ["vms", "cameras", "7"]) = .ok 7 := by decide +kernel
    rw [← Except.ok.inj (seven.symm.trans number)]
    rfl
  · rw [if_neg (by simpa using seven)] at number
    cases number

theorem without_seven_filed (unit : String) (cid : Int)
    (number : numberIn (withoutSeven (VmsController.cameraKey unit)) = .ok cid) : toString cid = unit := by
  have config : VmsController.cameraKey unit = ["vms", "cameras", unit] := rfl
  have same : withoutSeven (VmsController.cameraKey unit) = storedSeven "1" (VmsController.cameraKey unit) := by
    rw [withoutSeven, config, if_neg (by simp)]
  exact seven_filed unit cid (same ▸ number)

/-- Camera 7 is assigned and started, or not, and is then no longer assigned. -/
def assignedOnce (outside : Outside) : List (Surroundings VmsWorker × Pass) :=
  [(standing (storedSeven "1") outside, .reconcile), (standing withoutSeven outside, .reconcile)]

theorem assignedOnce_filed (outside : Outside) : ∀ event ∈ assignedOnce outside, Filed event.1 := by
  simp only [assignedOnce, List.forall_mem_cons]
  exact ⟨filed_standing seven_filed, filed_standing without_seven_filed, List.forall_mem_nil _⟩

/-- An actuator that starts nothing. -/
def startFails : Outside := { quietOutside with actuator := fun _ _ => .ok false }

end EdgeVms.Verified.HeldEpochs
