import EdgeVms.Domain.ClusterPlacement
import EdgeVms.Process.Pool

/-! # Do two placers agree?

Every placer has its own opinion, but a row that names a cluster is never written
again: the index that a placer names is that of a row without one.
-/

namespace EdgeVms.Verified

open Process Python Domain

open Platform (Exn View stored)

namespace PlacersAgree

open ClusterPlacer

variable {clusters : List ReachingCluster} {site : CameraSite} {rows rows' : PlacementRows} {view : View}

/-- The row of the camera names this cluster. -/
def Stored (site : CameraSite) (rows : PlacementRows) (name : String) : Prop :=
  ∃ items, rows.read (path site.camera) = some items ∧ (items.getD "cluster" "").string = name ∧ name ≠ ""

def Reaches (clusters : List ReachingCluster) (site : CameraSite) (name : String) : Prop :=
  ∃ c ∈ clusters, c.name = name ∧ site.network ∈ c.reaches

/-- What is stored of the camera reaches its network. -/
def Fits (clusters : List ReachingCluster) (site : CameraSite) (rows : PlacementRows) : Prop :=
  ∀ name, Stored site rows name → Reaches clusters site name

theorem Stored.unique {name name' : String} (there : Stored site rows name) (there' : Stored site rows name') :
    name = name' := by
  obtain ⟨items, read, rfl, -⟩ := there
  obtain ⟨items', read', rfl, -⟩ := there'
  rw [read] at read'
  cases read'
  rfl

/-- Nothing of what is stored is lost. -/
structure Advances (clusters : List ReachingCluster) (site : CameraSite) (rows rows' : PlacementRows) : Prop where
  later : rows.Later rows'
  kept : ∀ name, Stored site rows name → Stored site rows' name
  fits : Fits clusters site rows → Fits clusters site rows'

namespace Advances

theorem refl (rows : PlacementRows) : Advances clusters site rows rows := ⟨.refl rows, fun _ => id, id⟩

theorem trans {rows'' : PlacementRows} (first : Advances clusters site rows rows')
    (second : Advances clusters site rows' rows'') : Advances clusters site rows rows'' where
  later := first.later.trans second.later
  kept name there := second.kept name (first.kept name there)
  fits holds := second.fits (first.fits holds)

end Advances

/-! ## One write -/

theorem path_ne_revPath (camera : Int) : path camera ≠ revPath := by
  intro same
  have whole : (path camera).toList = "domain/placement/".toList ++ (toString camera).toList :=
    String.toList_append
  have long : "domain/placement/".toList.length = 17 := by decide
  have short : revPath.toList.length = 16 := by decide
  rw [← same, whole, List.length_append, long] at short
  omega

theorem stored_write_rev {items : Platform.Items} {name : String} :
    Stored site (rows.write revPath items) name ↔ Stored site rows name := by
  unfold Stored
  rw [Versioned.read_write_other _ _ (path_ne_revPath site.camera)]

theorem advances_rev (items : Platform.Items) : Advances clusters site rows (rows.write revPath items) where
  later := .write ..
  kept _ there := stored_write_rev.mpr there
  fits holds name there := holds name (stored_write_rev.mp there)

/-- The row of a placement. -/
def rowOf (pl : ClusterPlacement) : Dict Value :=
  [("cluster", .str pl.cluster), ("reason", .str pl.reason), ("at", .float pl.at_), ("rev", .int pl.rev)]

theorem stored_write_row {pl : ClusterPlacement} {name : String} :
    Stored site (rows.write (path site.camera) (stored (rowOf pl))) name ↔ pl.cluster = name ∧ name ≠ "" := by
  unfold Stored
  rw [Versioned.read_write_self]
  constructor
  · rintro ⟨items, same, cluster, named⟩
    cases same
    exact ⟨cluster, named⟩
  · rintro ⟨cluster, named⟩
    exact ⟨_, rfl, cluster, named⟩

/-- Over a row that names no cluster. -/
theorem advances_row {pl : ClusterPlacement} (free : ∀ name, ¬ Stored site rows name)
    (reaches : Reaches clusters site pl.cluster) :
    Advances clusters site rows (rows.write (path site.camera) (stored (rowOf pl))) where
  later := .write ..
  kept _ there := absurd there (free _)
  fits _ _ there := (stored_write_row.mp there).1 ▸ reaches

/-! ## What is read -/

theorem placementOf_some {pl : ClusterPlacement} (read : placementOf (rows.read (path site.camera)) = .ok (some pl)) :
    Stored site rows pl.cluster := by
  cases row : rows.read (path site.camera) with
  | none =>
    rw [row] at read
    cases read
  | some items =>
    rw [row] at read
    simp only [placementOf] at read
    split_ifs at read with unnamed
    · cases read
    · obtain ⟨cluster, there, read⟩ := bind_eq_ok.mp read
      obtain ⟨reason, -, read⟩ := bind_eq_ok.mp read
      obtain ⟨at_, -, read⟩ := bind_eq_ok.mp read
      obtain ⟨moment, -, read⟩ := bind_eq_ok.mp read
      obtain ⟨number, -, read⟩ := bind_eq_ok.mp read
      obtain ⟨rev, -, read⟩ := bind_eq_ok.mp read
      cases read
      have cluster_eq : items.getD "cluster" "" = cluster := by
        unfold Dict.item at there
        unfold Dict.getD
        cases found : items.get? "cluster" with
        | none => simp [found] at there
        | some value =>
          rw [found] at there
          cases there
          rfl
      rw [cluster_eq] at unnamed
      exact ⟨items, row, by rw [cluster_eq], unnamed⟩

theorem placementOf_none (read : placementOf (rows.read (path site.camera)) = .ok none) :
    ∀ name, ¬ Stored site rows name := by
  rintro name ⟨items, row, named, nonempty⟩
  rw [row] at read
  simp only [placementOf] at read
  rw [if_neg (by rw [named]; exact nonempty)] at read
  obtain ⟨cluster, -, read⟩ := bind_eq_ok.mp read
  obtain ⟨reason, -, read⟩ := bind_eq_ok.mp read
  obtain ⟨at_, -, read⟩ := bind_eq_ok.mp read
  obtain ⟨moment, -, read⟩ := bind_eq_ok.mp read
  obtain ⟨number, -, read⟩ := bind_eq_ok.mp read
  obtain ⟨rev, -, read⟩ := bind_eq_ok.mp read
  cases read

/-! ## The programs, request by request -/

theorem rev_succ (depth : Nat) : rev (depth + 1) = .call () (.get revPath) fun answer =>
    match nextRev answer.1 with
    | .error error => .raise (.python error)
    | .ok number => .call () (.put revPath [("rev", .int number)] answer.2) fun
      | .ok _ => .ret number
      | .error (.conflict .cluster _) => rev depth
      | .error error => .raise error := by
  show Proc.call _ _ _ = _
  congr 1
  funext answer
  obtain ⟨items, idx⟩ := answer
  show Proc.bind (raising (nextRev items)) _ = _
  cases next : nextRev items with
  | error error => rfl
  | ok number =>
    show Proc.call _ _ _ = _
    congr 1
    funext written
    obtain (_ | ⟨⟨_⟩, _⟩ | _ | _) | _ := written <;> rfl

/-- About to store the placement over the row that it read. -/
def storing (call : PlaceCall) (site : CameraSite) (why : String) (left : Nat) (pl : ClusterPlacement) (idx : Nat) :
    PlacementProgram ClusterPlacement :=
  .call () (.put (path site.camera) (rowOf pl) idx) fun
    | .ok _ => .ret pl
    | .error (.conflict .cluster _) => storeRounds call site.camera pl.cluster why 5 left
    | .error error => .raise error

theorem storeRounds_succ (call : PlaceCall) (cluster why : String) (left : Nat) :
    storeRounds call site.camera cluster why 5 (left + 1) = .call () (.get (path site.camera)) fun answer =>
      match placementOf answer.1 with
      | .error error => .raise (.python error)
      | .ok (some pl) => .ret pl
      | .ok none => (rev call.depth).bind fun number =>
        storing call site why left ⟨cluster, why, call.clock left, number⟩ answer.2 := by
  show Proc.call _ _ _ = _
  congr 1
  funext answer
  obtain ⟨items, idx⟩ := answer
  show Proc.bind (raising (placementOf items)) _ = _
  obtain error | _ | pl := placementOf items
  · rfl
  · show Proc.bind (rev call.depth) _ = Proc.bind (rev call.depth) _
    congr 1
    funext number
    show Proc.call _ _ _ = Proc.call _ _ _
    congr 1
    funext written
    obtain (_ | ⟨⟨_⟩, _⟩ | _ | _) | _ := written <;> rfl
  · rfl

theorem place_eq (call : PlaceCall) :
    place clusters site call = .call () (.get (path site.camera)) fun answer =>
      match placementOf answer.1 with
      | .error error => .raise (.python error)
      | .ok (some pl) => .ret pl
      | .ok none =>
        let cands := candidates clusters site call.unreachable
        match maxBy (fun c => call.headroom c.name) (cands.insertionSort fun a b => a.name ≤ b.name) with
        | none => .raise (.refused (refusal clusters site))
        | some best => storeRounds call site.camera best.name
          (if cands.length = 1 then "only cluster reaching " ++ site.network
            else "most headroom (" ++ ClusterPlacer.fixed1 (call.headroom best.name) ++ ") among " ++
              toString cands.length ++ " reaching " ++ site.network) 5 5 := by
  show Proc.call _ _ _ = _
  congr 1
  funext answer
  obtain ⟨items, idx⟩ := answer
  show Proc.bind (raising (placementOf items)) _ = _
  obtain error | _ | pl := placementOf items
  · rfl
  · generalize maxBy (fun c : ReachingCluster => call.headroom c.name)
      ((candidates clusters site call.unreachable).insertionSort fun a b => a.name ≤ b.name) = most
    cases most <;> rfl
  · rfl

/-! ## The candidates -/

theorem maxBy_mem {α : Type} {key : α → Floating} {xs : List α} {best : α} (most : maxBy key xs = some best) :
    best ∈ xs := by
  cases xs with
  | nil => cases most
  | cons first rest =>
    simp only [maxBy, Option.some.injEq] at most
    subst most
    refine List.foldlRecOn (motive := (· ∈ first :: rest)) rest _ (.head _) fun best member c later => ?_
    split
    · exact .tail _ later
    · exact member

theorem best_reaches {call : PlaceCall} {best : ReachingCluster}
    (most : maxBy (fun c => call.headroom c.name)
      ((candidates clusters site call.unreachable).insertionSort fun a b => a.name ≤ b.name) = some best) :
    best ∈ clusters ∧ Reaches clusters site best.name := by
  have candidate := (List.mem_insertionSort _).mp (maxBy_mem most)
  obtain ⟨member, fits⟩ := List.mem_filter.mp candidate
  exact ⟨member, best, member, rfl, (of_decide_eq_true fits).1⟩

/-! ## A call among others -/

/-- What a call returns is stored. -/
def Told (site : CameraSite) (result : Except Exn ClusterPlacement) (rows : PlacementRows) : Prop :=
  ∀ pl, result = .ok pl → Stored site rows pl.cluster

abbrev Safely (view : View) (clusters : List ReachingCluster) (site : CameraSite) {α : Type}
    (post : Except Exn α → PlacementRows → Prop) (program : PlacementProgram α) (rows : PlacementRows) : Prop :=
  Safe (placementHandler view) (fun _ => Advances clusters site) (Advances clusters site) post program rows

theorem Told.error {error : Exn} : Told site (.error error) rows := fun _ returned => by cases returned

/-- Taking a number leaves the placements alone. -/
theorem rev_safe (depth : Nat) {base : PlacementRows} (later : base.Later rows) :
    Safely view clusters site (fun _ rows => base.Later rows) (rev depth) rows := by
  induction depth generalizing rows with
  | zero => exact .raise later
  | succ depth ih =>
    rw [rev_succ]
    intro rows₁ moved
    have later₁ := later.trans moved.later
    refine ⟨.refl rows₁, ?_⟩
    simp only [placementHandler]
    cases nextRev (rows₁.read revPath) with
    | error error => exact .raise later₁
    | ok number =>
      intro rows₂ moved'
      have later₂ := later₁.trans moved'.later
      simp only [placementHandler]
      cases view.forbids revPath with
      | some message => exact ⟨.refl rows₂, .raise later₂⟩
      | none =>
        by_cases same : rows₁.version revPath = rows₂.version revPath
        · simp only [if_pos same]
          exact ⟨advances_rev _, .ret (later₂.trans (.write ..))⟩
        · simp only [if_neg same]
          exact ⟨.refl rows₂, ih later₂⟩

theorem storeRounds_safe {call : PlaceCall} {cluster why : String} (reaches : Reaches clusters site cluster)
    (named : cluster ≠ "") (left : Nat) (rows : PlacementRows) :
    Safely view clusters site (Told site) (storeRounds call site.camera cluster why 5 left) rows := by
  induction left generalizing rows with
  | zero => exact .raise .error
  | succ left ih =>
    rw [storeRounds_succ]
    intro rows₁ _
    refine ⟨.refl rows₁, ?_⟩
    simp only [placementHandler]
    cases read : placementOf (rows₁.read (path site.camera)) with
    | error error => exact .raise .error
    | ok pl =>
      cases pl with
      | some pl =>
        refine .ret fun pl' returned => ?_
        cases returned
        exact placementOf_some read
      | none =>
        refine .bind ((rev_safe call.depth (.refl rows₁)).mono fun result rows₂ later => ?_)
        cases result with
        | error error => exact .error
        | ok number =>
          intro rows₃ moved
          simp only [placementHandler]
          cases view.forbids (path site.camera) with
          | some message => exact ⟨.refl rows₃, .raise .error⟩
          | none =>
            by_cases same : rows₁.version (path site.camera) = rows₃.version (path site.camera)
            · -- nobody wrote since it read a row without a cluster
              have free : ∀ name, ¬ Stored site rows₃ name := by
                have unchanged := (later.trans moved.later).row_of_version same.symm
                intro name there
                refine placementOf_none read name ?_
                unfold Stored Versioned.read at there ⊢
                rwa [unchanged] at there
              simp only [if_pos same]
              refine ⟨advances_row free reaches, .ret fun pl returned => ?_⟩
              cases returned
              exact stored_write_row.mpr ⟨rfl, named⟩
            · simp only [if_neg same]
              exact ⟨.refl rows₃, ih rows₃⟩

theorem place_safe (named : ∀ c ∈ clusters, c.name ≠ "") (call : PlaceCall) (rows : PlacementRows) :
    Safely view clusters site (Told site) (place clusters site call) rows := by
  rw [place_eq]
  intro rows₁ _
  refine ⟨.refl rows₁, ?_⟩
  simp only [placementHandler]
  cases read : placementOf (rows₁.read (path site.camera)) with
  | error error => exact .raise .error
  | ok pl =>
    cases pl with
    | some pl =>
      refine .ret fun pl' returned => ?_
      cases returned
      exact placementOf_some read
    | none =>
      dsimp only
      split
      · exact .raise .error
      · next best most =>
        obtain ⟨member, reaches⟩ := best_reaches most
        exact storeRounds_safe reaches (named best member) 5 rows₁

/-! ## All of them -/

variable {ι : Type} [DecidableEq ι]

abbrev Placers (ι : Type) := Pool placementInterface Unit Exn ClusterPlacement PlacementRows ι

def begun (clusters : List ReachingCluster) (site : CameraSite) (calls : ι → PlaceCall) (rows : PlacementRows) :
    Placers ι := ⟨fun i => place clusters site (calls i), rows⟩

def run (views : ι → View) (schedule : List ι) (pool : Placers ι) : Placers ι :=
  pool.exec (fun i => placementHandler (views i)) schedule

/-- Every call is safe where it stands. -/
def Going (views : ι → View) (clusters : List ReachingCluster) (site : CameraSite) (pool : Placers ι) : Prop :=
  ∀ i, Safely (views i) clusters site (Told site) (pool.procs i) pool.state

theorem going_run {views : ι → View} {pool : Placers ι} (going : Going views clusters site pool) (schedule : List ι) :
    Advances clusters site pool.state (run views schedule pool).state ∧
      Going views clusters site (run views schedule pool) := by
  have along : Along (Pool.step fun i => placementHandler (views i)) (fun _ _ => True) schedule pool :=
    .always (fun _ _ => trivial) _ _
  refine Pool.safe_exec_post (fun _ _ => Advances clusters site) (fun _ => Advances clusters site)
    (fun _ => Told site) (Advances clusters site pool.state) ?still ?transitive ?keeps ?compatible ?stable along going
    (.refl _)
  case still => exact fun _ _ rows _ => .refl rows
  case transitive => exact fun _ _ _ _ _ first second => first.trans second
  case keeps => exact fun _ _ _ moved before => before.trans moved
  case compatible => exact fun _ _ _ _ _ _ _ moved _ _ => moved
  case stable => exact fun _ _ _ _ _ moved result told pl returned => moved.kept _ (told pl returned)

/-- Two cluster placers agree. -/
theorem placers_agree (clusters : List ReachingCluster) (named : ∀ c ∈ clusters, c.name ≠ "") (site : CameraSite)
    (calls : ι → PlaceCall) (views : ι → View) (rows : PlacementRows) (fits : Fits clusters site rows)
    (first rest : List ι) :
    let before := run views first (begun clusters site calls rows)
    let after := run views rest before
    (∀ i j pl pl', after.procs i = .ret pl → after.procs j = .ret pl' → pl.cluster = pl'.cluster) ∧
      (∀ i pl, after.procs i = .ret pl → Reaches clusters site pl.cluster) ∧
      ∀ name, Stored site before.state name → ∀ name', Stored site after.state name' ↔ name' = name := by
  have going : Going views clusters site (begun clusters site calls rows) := fun i => place_safe named _ _
  obtain ⟨until_, going⟩ := going_run going first
  obtain ⟨since, going⟩ := going_run going rest
  have told {i : ι} {pl : ClusterPlacement}
      (returned : (run views rest (run views first (begun clusters site calls rows))).procs i = .ret pl) :
      Stored site (run views rest (run views first (begun clusters site calls rows))).state pl.cluster := by
    have own := going i
    rw [returned] at own
    exact own pl rfl
  refine ⟨fun i j pl pl' one other => (told one).unique (told other), fun i pl returned => ?_,
    fun name there name' => ⟨fun there' => there'.unique (since.kept name there), ?_⟩⟩
  · exact since.fits (until_.fits fits) _ (told returned)
  · rintro rfl
    exact since.kept name' there

/-! ## Two placers -/

/-- Each placer finds another cluster the better one. -/
def opposed (best : Bool → String) (i : Bool) : PlaceCall :=
  ⟨fun name => .finite (if name = best i then 2 else 1), [], fun _ => .finite 1000, 5⟩

def twoClusters (first second : String) : List ReachingCluster := [⟨first, ["vlan:a"]⟩, ⟨second, ["vlan:a"]⟩]

def camera₁ : CameraSite := ⟨1, "vlan:a"⟩

def everybody : Bool → View := fun _ => {}

theorem fits_empty (clusters : List ReachingCluster) (site : CameraSite) :
    Fits clusters site (Versioned.empty 1000) := by
  rintro name ⟨items, row, -⟩
  cases row

def race : List Bool :=
  [false, true, false, true, false, true, false, true, false, true, true, false, false, false, true, true, true]

theorem placers_agree_racing :
    let calls := opposed fun i => if i then "north" else "south"
    let before := run everybody (race.take 12)
      (begun (twoClusters "north" "south") camera₁ calls (Versioned.empty 1000))
    let after := run everybody (race.drop 12) before
    (∀ i j pl pl', after.procs i = .ret pl → after.procs j = .ret pl' → pl.cluster = pl'.cluster) ∧
      (∀ i pl, after.procs i = .ret pl → Reaches (twoClusters "north" "south") camera₁ pl.cluster) ∧
      ∀ name, Stored camera₁ before.state name → ∀ name', Stored camera₁ after.state name' ↔ name' = name :=
  placers_agree _ (by decide) camera₁ _ everybody _ (fits_empty _ _) _ _

example : ∀ i, ((run everybody race (begun (twoClusters "north" "south") camera₁
    (opposed fun i => if i then "north" else "south") (Versioned.empty 1000))).procs i).value?.isSome := by
  decide +kernel

/-- A row that names the empty cluster counts as none. -/
theorem nameless_cluster_splits :
    ¬ ∀ (clusters : List ReachingCluster) (site : CameraSite) (calls : Bool → PlaceCall) (schedule : List Bool)
        (i j : Bool) (pl pl' : ClusterPlacement),
      (run everybody schedule (begun clusters site calls (Versioned.empty 1000))).procs i = .ret pl →
      (run everybody schedule (begun clusters site calls (Versioned.empty 1000))).procs j = .ret pl' →
      pl.cluster = pl'.cluster := by
  intro agree
  let pool := run everybody (List.replicate 5 false ++ List.replicate 5 true)
    (begun (twoClusters "" "south") camera₁ (opposed fun i => if i then "south" else "") (Versioned.empty 1000))
  have returned : (pool.procs false).value?.map ClusterPlacement.cluster = some "" ∧
      (pool.procs true).value?.map ClusterPlacement.cluster = some "south" := by decide +kernel
  obtain ⟨pl, one, cluster⟩ := Option.map_eq_some_iff.mp returned.1
  obtain ⟨pl', other, cluster'⟩ := Option.map_eq_some_iff.mp returned.2
  have same := agree _ _ _ _ false true pl pl' (Proc.ret_of_value? one) (Proc.ret_of_value? other)
  rw [cluster, cluster'] at same
  exact absurd same (by decide)

end PlacersAgree

end EdgeVms.Verified
