import EdgeVms.Verified.Vms.CameraRow
import Mathlib.Data.Fintype.Prod

/-! # The retention rows

Two rows say how long a camera's events are kept: its own, and the policy row that
the resources read.  A call writes one after the other.  The ledger beside the world
says who is between the two, and who wrote last what the policy has to follow.
-/

namespace EdgeVms.Verified.RetentionRows

open Process Python Platform Vms VmsController

/-- The days that a camera row asks for, `none` where there is no camera: a deleted camera asks for 0, another for its
own days if they are a number. -/
def asks (row : Option Items) : Option (Option Int) :=
  let it := rowValues row
  if it.isEmpty then none
  else if isDeleted it then some (some 0)
  else some (it.getD "events_retention_days" (.int 365)).toInt.toOption

/-- The days of a policy row. -/
def holds (row : Option Items) : Option Int := ((rowValues row).get? "days").bind fun days => days.toInt.toOption

/-- The policy row of a camera holds the days that the camera's row asks for. -/
def Agrees (rows : Rows) (cid : Int) : Prop :=
  ∀ asked, asks (rows.read (cameraKey (toString cid))) = some asked →
    ∃ days, holds (rows.read (retentionKey cid)) = some days ∧ ∀ wanted, asked = some wanted → days = wanted

/-! ## The ledger -/

variable {ι M : Type}

structure Ledger (ι M : Type) where
  world : World ι M
  /-- The camera row that a call has written, or found to be missing. -/
  owes : ι → Option Key
  /-- The call that last changed what the row asks for; and whether it made the camera, or found a policy row there. -/
  author : Key → Option (ι × Bool)

def Ledger.rows (ledger : Ledger ι M) : Rows := ledger.world.vars

def isCameraKey (key : Key) : Bool := camerasKey.isPrefixOf key && key ≠ camerasKey

/-- The policy row that goes with a camera row. -/
def policyKey (key : Key) : Key := vms.config ["retention", lastSegment key]

/-- The row may be changed, and the policy row will follow: there is one, or the camera is new. -/
def Ledger.follows (ledger : Ledger ι M) (key : Key) : Bool :=
  (asks (ledger.rows.read key)).isNone || (holds (ledger.rows.read (policyKey key))).isSome

/-- Call `i` has had its way with the row. -/
def Ledger.noted [DecidableEq ι] (ledger : Ledger ι M) (i : ι) (key : Key) (world : World ι M) : Ledger ι M where
  world := world
  owes := Function.update ledger.owes i (some key)
  author :=
    if asks (world.vars.read key) = asks (ledger.rows.read key) then ledger.author
    else Function.update ledger.author key (some (i, ledger.follows key))

/-- The platform's handler, with the ledger kept. -/
def ledgered [DecidableEq ι] (store : Variables) (view : View) (i : ι) : Handler (interface M) (Ledger ι M)
  | .get key, ledger =>
    let (answer, world) := handler store view i (.get key) ledger.world
    (answer, if isCameraKey key && (asks (ledger.rows.read key)).isNone then ledger.noted i key world
      else { ledger with world := world })
  | .put key items cas, ledger =>
    let (answer, world) := handler store view i (.put key items cas) ledger.world
    (answer, if isCameraKey key && answer.isOk then ledger.noted i key world else { ledger with world := world })
  | request, ledger =>
    let (answer, world) := handler store view i request ledger.world
    (answer, { ledger with world := world })

/-! ## Rely and guarantee -/

/-- What the row of a camera asks for is the same in both. -/
def AsksSame (ledger ledger' : Ledger ι M) (key : Key) : Prop :=
  asks (ledger'.rows.read key) = asks (ledger.rows.read key)

/-- What the others leave alone while call `i` runs. -/
structure Leaves (i : ι) (ledger ledger' : Ledger ι M) : Prop where
  later : Versioned.Later ledger.rows ledger'.rows
  owes : ledger'.owes i = ledger.owes i
  author : ∀ key flag, isCameraKey key = true → ledger'.author key = some (i, flag) → ledger.author key = some (i, flag)
  asks : ∀ key, isCameraKey key = true → ledger.owes i = some key → AsksSame ledger ledger' key
  agrees : ∀ cid, ledger.owes i = some (cameraKey (toString cid)) → Agrees ledger.rows cid → Agrees ledger'.rows cid
  held : ∀ cid, (holds (ledger.rows.read (retentionKey cid))).isSome →
    (holds (ledger'.rows.read (retentionKey cid))).isSome

/-- What call `i` does at one request. -/
structure Does (i : ι) (ledger ledger' : Ledger ι M) : Prop where
  later : Versioned.Later ledger.rows ledger'.rows
  owes : ∀ j ≠ i, ledger'.owes j = ledger.owes j
  debt : ∀ key, ledger.owes i = some key → ledger'.owes i = some key
  author : ∀ key, isCameraKey key = true →
    (ledger'.author key = ledger.author key ∧ AsksSame ledger ledger' key) ∨
      (ledger'.author key = some (i, ledger.follows key) ∧ ¬ AsksSame ledger ledger' key ∧ ledger.owes i = none ∧
        ledger'.owes i = some key)
  agrees : ∀ cid, AsksSame ledger ledger' (cameraKey (toString cid)) → Agrees ledger.rows cid → Agrees ledger'.rows cid
  held : ∀ cid, (holds (ledger.rows.read (retentionKey cid))).isSome →
    (holds (ledger'.rows.read (retentionKey cid))).isSome

/-- Nothing that matters here has changed. -/
structure Still (ledger ledger' : Ledger ι M) : Prop where
  later : Versioned.Later ledger.rows ledger'.rows
  owes : ledger'.owes = ledger.owes
  author : ledger'.author = ledger.author
  cameras : ∀ key, isCameraKey key = true → ledger'.rows.read key = ledger.rows.read key
  retentions : ∀ cid, ledger'.rows.read (retentionKey cid) = ledger.rows.read (retentionKey cid)

theorem isCameraKey_cameraKey (unit : String) : isCameraKey (cameraKey unit) = true := by
  simp [isCameraKey, camerasKey, cameraKey, Subsystem.config, List.isPrefixOf]

theorem isCameraKey_retentionKey (cid : Int) : isCameraKey (retentionKey cid) = false := by
  simp [isCameraKey, camerasKey, retentionKey, Subsystem.config, List.isPrefixOf]

theorem cameraKey_inj {cid cid' : Int} (same : cameraKey (toString cid) = cameraKey (toString cid')) : cid = cid' := by
  simp only [cameraKey, Subsystem.config, List.cons.injEq] at same
  exact toString_inj same.2.2.1

theorem retentionKey_inj {cid cid' : Int} (same : retentionKey cid = retentionKey cid') : cid = cid' := by
  simp only [retentionKey, Subsystem.config, List.cons.injEq] at same
  exact toString_inj same.2.2.1

theorem Agrees.of_reads {rows rows' : Rows} {cid : Int} (agrees : Agrees rows cid)
    (camera : asks (rows'.read (cameraKey (toString cid))) = asks (rows.read (cameraKey (toString cid))))
    (retention : rows'.read (retentionKey cid) = rows.read (retentionKey cid)) : Agrees rows' cid := by
  intro asked found
  rw [retention]
  exact agrees asked (camera ▸ found)

section Relations

variable {i j : ι} {ledger ledger' ledger'' : Ledger ι M}

theorem Leaves.refl (i : ι) (ledger : Ledger ι M) : Leaves i ledger ledger :=
  ⟨.refl _, rfl, fun _ _ _ => id, fun _ _ _ => rfl, fun _ _ => id, fun _ => id⟩

theorem Leaves.trans (first : Leaves i ledger ledger') (second : Leaves i ledger' ledger'') :
    Leaves i ledger ledger'' where
  later := first.later.trans second.later
  owes := second.owes.trans first.owes
  author key flag camera mine := first.author key flag camera (second.author key flag camera mine)
  asks key camera owed := (second.asks key camera (first.owes.trans owed)).trans (first.asks key camera owed)
  agrees cid owed agrees := second.agrees cid (first.owes.trans owed) (first.agrees cid owed agrees)
  held cid some := second.held cid (first.held cid some)

theorem Still.of_rows (rows : ledger'.rows = ledger.rows) (author : ledger'.author = ledger.author)
    (owes : ledger'.owes = ledger.owes) : Still ledger ledger' :=
  ⟨rows ▸ .refl _, owes, author, fun _ _ => by rw [rows], fun _ => by rw [rows]⟩

theorem Still.asks (still : Still ledger ledger') {key : Key} (camera : isCameraKey key = true) :
    AsksSame ledger ledger' key := congrArg RetentionRows.asks (still.cameras key camera)

theorem Still.agrees (still : Still ledger ledger') {cid : Int} (agrees : Agrees ledger.rows cid) :
    Agrees ledger'.rows cid :=
  agrees.of_reads (still.asks (isCameraKey_cameraKey _)) (still.retentions cid)

theorem Still.leaves (i : ι) (still : Still ledger ledger') : Leaves i ledger ledger' where
  later := still.later
  owes := by rw [still.owes]
  author _ _ _ mine := by rwa [still.author] at mine
  asks key camera _ := still.asks camera
  agrees _ _ := still.agrees
  held cid some := by rwa [still.retentions]

theorem Still.does (still : Still ledger ledger') : Does i ledger ledger' where
  later := still.later
  owes _ _ := by rw [still.owes]
  debt _ owes := by rwa [still.owes]
  author _ camera := .inl ⟨by rw [still.author], still.asks camera⟩
  agrees _ _ := still.agrees
  held cid some := by rwa [still.retentions]

/-- A step that the rules of one call allow is one that another call can bear, if it does not change what a row owed by
the other asks for. -/
theorem Does.leaves (does : Does i ledger ledger') (other : j ≠ i)
    (undisturbed : ∀ key, ledger.owes j = some key → AsksSame ledger ledger' key) : Leaves j ledger ledger' where
  later := does.later
  owes := does.owes j other
  author key flag camera mine := by
    obtain ⟨same, -⟩ | ⟨taken, -⟩ := does.author key camera
    · rw [← same]
      exact mine
    · rw [taken] at mine
      exact absurd (Prod.mk.inj (Option.some.inj mine)).1.symm other
  asks key _ owes := undisturbed key owes
  agrees cid owes := does.agrees cid (undisturbed _ owes)
  held := does.held

end Relations

/-! ## The rules -/

variable [DecidableEq ι]

/-- After a row has been read. -/
structure Looked (i : ι) (key : Key) (ledger ledger' : Ledger ι M) : Prop where
  rows : ledger'.rows = ledger.rows
  author : ledger'.author = ledger.author
  owes : ledger'.owes =
    if isCameraKey key && (asks (ledger.rows.read key)).isNone then Function.update ledger.owes i (some key) else ledger.owes

/-- After a row has been written. -/
structure Wrote (i : ι) (key : Key) (items : Dict Value) (ledger ledger' : Ledger ι M) : Prop where
  rows : ledger'.rows = ledger.rows.write key (stored items)
  author : ledger'.author =
    if isCameraKey key && asks (some (stored items)) ≠ asks (ledger.rows.read key) then
      Function.update ledger.author key (some (i, ledger.follows key)) else ledger.author
  owes : ledger'.owes = if isCameraKey key then Function.update ledger.owes i (some key) else ledger.owes

theorem Looked.does {i : ι} {key : Key} {ledger ledger' : Ledger ι M} (looked : Looked i key ledger ledger')
    (unowed : isCameraKey key = true → ledger.owes i = none) : Does i ledger ledger' where
  later := looked.rows ▸ .refl _
  owes j other := by
    rw [looked.owes]
    split
    · exact Function.update_of_ne other _ _
    · rfl
  debt key' owes := by
    rw [looked.owes]
    split
    next found =>
      rw [unowed (Bool.and_eq_true_iff.mp found).1] at owes
      cases owes
    next => exact owes
  author key _ := .inl ⟨by rw [looked.author], by rw [AsksSame, looked.rows]⟩
  agrees _ _ agrees := looked.rows ▸ agrees
  held cid some := by rwa [looked.rows]

section Rules

variable {α β : Type} {store : Variables} {view : View} {i : ι} {ledger : Ledger ι M}

/-- The call, if it returns, returns what `post` says. -/
def Books (store : Variables) (view : View) (i : ι) (post : α → Ledger ι M → Prop) (p : Program M α)
    (ledger : Ledger ι M) :
    Prop :=
  Safe (ledgered store view i) (fun _ => Leaves i) (Does i)
    (fun result ledger => ∀ value, result = .ok value → post value ledger) p ledger

namespace Books

variable {post : α → Ledger ι M → Prop}

theorem ret {value : α} (holds : post value ledger) : Books store view i post (Proc.ret value) ledger := by
  intro value' same
  cases same
  exact holds

theorem raise {error : Exn} : Books store view i post (Proc.raise error) ledger := nofun

theorem bind {middle : α → Ledger ι M → Prop} {last : β → Ledger ι M → Prop} {p : Program M α} {f : α → Program M β}
    (first : Books store view i middle p ledger)
    (later : ∀ value ledger', middle value ledger' → Books store view i last (f value) ledger') :
    Books store view i last (p >>= f) ledger := by
  refine Safe.bind (Safe.mono (fun result ledger' ends => ?_) first)
  cases result with
  | error error => exact nofun
  | ok value => exact later value ledger' (ends value rfl)

theorem ofExcept_bind {last : β → Ledger ι M → Prop} {result : Except Exn α} {f : α → Program M β}
    (later : ∀ value, result = .ok value → Books store view i last (f value) ledger) :
    Books store view i last (Proc.ofExcept result >>= f) ledger := by
  cases result with
  | error error => exact raise
  | ok value => exact later value rfl

theorem value_bind {last : β → Ledger ι M → Prop} {result : Except Error α} {f : α → Program M β}
    (later : ∀ value, result = .ok value → Books store view i last (f value) ledger) :
    Books store view i last (Program.value result >>= f) ledger := by
  cases result with
  | error error => exact raise
  | ok value => exact later value rfl

theorem get (honest : Honest store) {key : Key} {f : Option Items × Nat → Program M α}
    (unowed : isCameraKey key = true → ledger.owes i = none)
    (next : ∀ ledger' ledger'', Leaves i ledger ledger' → Looked i key ledger' ledger'' →
      Books store view i post (f (ledger'.rows.read key, ledger'.rows.version key)) ledger'') :
    Books store view i post (Program.get key >>= f) ledger := by
  intro ledger' moved
  have looked : Looked i key ledger' (ledgered store view i (.get key) ledger').2 := by
    simp only [ledgered, handler]
    split
    next found =>
      refine ⟨rfl, ?_, by simp [Ledger.noted, found]⟩
      simp [Ledger.noted, Ledger.rows]
    next kept => exact ⟨rfl, rfl, by simp [kept]⟩
  refine ⟨looked.does fun camera => moved.owes.trans (unowed camera), ?_⟩
  have answer : (ledgered store view i (.get key) ledger').1 = store.get ledger'.rows key := rfl
  show Safe _ _ _ _ (Proc.bind (Proc.ofExcept (ledgered store view i (.get key) ledger').1) f) _
  rw [answer]
  cases answered : store.get ledger'.rows key with
  | error error =>
    intro value refused
    cases refused
  | ok found =>
    obtain ⟨items, index⟩ := found
    obtain ⟨rfl, rfl⟩ := honest.get_ok answered
    exact next ledger' _ moved looked

/-- The store refuses the row, or writes it. -/
theorem put_cases (honest : Honest store) (key : Key) (items : Dict Value) (cas : Option Nat) (ledger : Ledger ι M) :
    (∃ error, (ledgered store view i (.put key items cas) ledger).1 = .error error ∧
        Still ledger (ledgered store view i (.put key items cas) ledger).2) ∨
      ∃ index, (ledgered store view i (.put key items cas) ledger).1 = .ok index ∧ ledger.rows.Matches key cas ∧
        Wrote i key items ledger (ledgered store view i (.put key items cas) ledger).2 := by
  obtain ⟨error, answered⟩ | ⟨index, allowed, answered⟩ := honest.put_cases view ledger.rows key items cas
  · refine .inl ⟨error, ?_, ?_⟩
    · simp only [ledgered, handler]
      exact congrArg Prod.fst answered
    · have answer : (handler store view i (.put key items cas) ledger.world).1 = .error error :=
        congrArg Prod.fst answered
      have rows : (handler store view i (.put key items cas) ledger.world).2.vars = ledger.rows :=
        congrArg Prod.snd answered
      simp only [ledgered, answer, Except.isOk, Except.toBool, Bool.and_false, Bool.false_eq_true, if_false]
      exact .of_rows rows rfl rfl
  · refine .inr ⟨index, ?_, allowed, ?_⟩
    · simp only [ledgered, handler]
      exact congrArg Prod.fst answered
    · have answer : (handler store view i (.put key items cas) ledger.world).1 = .ok index := congrArg Prod.fst answered
      have rows : (handler store view i (.put key items cas) ledger.world).2.vars =
          ledger.rows.write key (stored items) :=
        congrArg Prod.snd answered
      have found : (ledger.rows.write key (stored items)).read key = some (stored items) :=
        Versioned.read_write_self _ _ _
      simp only [ledgered, answer, Except.isOk, Except.toBool, Bool.and_true]
      split
      next camera =>
        refine ⟨rows, ?_, by simp [Ledger.noted, camera]⟩
        simp only [Ledger.noted, rows, found, camera, Bool.true_and]
        by_cases same : asks (some (stored items)) = asks (ledger.rows.read key) <;> simp [same]
      next elsewhere => exact ⟨rows, by simp [elsewhere], by simp [elsewhere]⟩

/-- A check-and-set, and what comes if it is lost. -/
theorem attempt (honest : Honest store) {path : Key} {new : Dict Value} {index : Nat} {lost : Program M (Dict Value)}
    {post : Dict Value → Ledger ι M → Prop}
    (writes : ∀ ledger' ledger'', Leaves i ledger ledger' → ledger'.rows.Matches path (some index) →
      Wrote i path new ledger' ledger'' → Does i ledger' ledger'' ∧ post new ledger'')
    (again : ∀ ledger', Leaves i ledger ledger' → Books store view i post lost ledger') :
    Books store view i post (Controller.attempt path new index lost) ledger := by
  intro ledger' moved
  obtain ⟨error, answered, still⟩ | ⟨number, answered, allowed, wrote⟩ := put_cases honest path new (some index) ledger'
  · refine ⟨still.does, ?_⟩
    rw [answered]
    -- only the platform's own Conflict is caught
    cases error with
    | conflict package message =>
      cases package with
      | vmsplatform => exact again _ (moved.trans (still.leaves i))
      | cluster => exact nofun
    | python error => exact nofun
    | forbidden package message => exact nofun
    | refused message => exact nofun
  · obtain ⟨does, ends⟩ := writes ledger' _ moved allowed wrote
    refine ⟨does, ?_⟩
    rw [answered]
    intro value same
    cases same
    exact ends

/-- Read-modify-write, by a function of what is read. -/
theorem write (honest : Honest store) {path : Key} {mutate : Dict Value → Program M (Option (Dict Value))}
    {f : Dict Value → Except Error (Option (Dict Value))} (pure : ∀ it, mutate it = Program.value (f it))
    {post : Dict Value → Ledger ι M → Prop} {holding : Ledger ι M → Prop}
    (stable : ∀ ledger ledger', holding ledger → Leaves i ledger ledger' → holding ledger') (holds : holding ledger)
    (unowed : isCameraKey path = true → ∀ ledger, holding ledger → ledger.owes i = none)
    (round : ∀ before after, holding before → Looked i path before after →
      match f (rowValues (before.rows.read path)) with
      | .error _ => True
      | .ok none => post (rowValues (before.rows.read path)) after
      | .ok (some new) => holding after ∧ ∀ ledger' ledger'', Leaves i after ledger' →
          ledger'.rows.Matches path (some (before.rows.version path)) → Wrote i path new ledger' ledger'' →
            Does i ledger' ledger'' ∧ post new ledger'') :
    Books store view i post (Controller.write path mutate) ledger := by
  have rounds : ∀ left ledger, holding ledger →
      Books store view i post (Controller.writeRounds path mutate 10 left) ledger := by
    intro left
    induction left with
    | zero => exact fun _ _ => raise
    | succ left ih =>
      intro ledger holds
      refine get honest (fun camera => unowed camera ledger holds) fun before after moved looked => ?_
      have found := round before after (stable _ _ holds moved) looked
      dsimp only
      rw [pure]
      cases made : f (rowValues (before.rows.read path)) with
      | error error => exact raise
      | ok new =>
        rw [made] at found
        cases new with
        | none => exact ret found
        | some new =>
          obtain ⟨kept, writes⟩ := found
          exact attempt honest writes fun ledger' later => ih ledger' (stable _ _ kept later)
  exact rounds 10 ledger holds

theorem put (honest : Honest store) {key : Key} {items : Dict Value} {cas : Option Nat} {f : Nat → Program M α}
    (writes : ∀ ledger' ledger'' index, Leaves i ledger ledger' → ledger'.rows.Matches key cas →
      Wrote i key items ledger' ledger'' → Does i ledger' ledger'' ∧ Books store view i post (f index) ledger'') :
    Books store view i post (Program.put key items cas >>= f) ledger := by
  intro ledger' moved
  obtain ⟨error, answered, still⟩ | ⟨index, answered, allowed, wrote⟩ := put_cases honest key items cas ledger'
  · refine ⟨still.does, ?_⟩
    rw [answered]
    exact nofun
  · obtain ⟨does, rest⟩ := writes ledger' _ index moved allowed wrote
    refine ⟨does, ?_⟩
    rw [answered]
    exact rest

end Books

end Rules

/-! ## Rows of other kinds -/

section Elsewhere

variable {α β : Type}

/-- Neither a camera row nor a policy row. -/
def Away (key : Key) : Prop := isCameraKey key = false ∧ ∀ cid, key ≠ retentionKey cid

/-- The rows that the program reads or writes are of other kinds. -/
def Elsewhere : Program M α → Prop
  | .call _ (.get key) next => Away key ∧ ∀ answer, Elsewhere (next answer)
  | .call _ (.put key _ _) next => Away key ∧ ∀ answer, Elsewhere (next answer)
  | .call _ _ next => ∀ answer, Elsewhere (next answer)
  | _ => True

namespace Elsewhere

theorem ofExcept (result : Except Exn α) : Elsewhere (Proc.ofExcept result : Program M α) := by
  cases result <;> trivial

theorem value (result : Except Error α) : Elsewhere (Program.value result : Program M α) := by
  cases result <;> trivial

theorem bind {p : Program M α} {f : α → Program M β} (first : Elsewhere p) (later : ∀ value, Elsewhere (f value)) :
    Elsewhere (p >>= f) := by
  induction p with
  | ret value => exact later value
  | raise error => trivial
  | call label request next ih =>
    cases request with
    | get key => exact ⟨first.1, fun answer => ih answer (first.2 answer)⟩
    | put key items cas => exact ⟨first.1, fun answer => ih answer (first.2 answer)⟩
    | _ => exact fun answer => ih answer (first answer)

theorem within {phase : Phase} {p : Program M α} (elsewhere : Elsewhere p) : Elsewhere (p.within phase) := by
  induction p with
  | ret value => trivial
  | raise error => trivial
  | call label request next ih =>
    cases request with
    | get key => exact ⟨elsewhere.1, fun answer => ih answer (elsewhere.2 answer)⟩
    | put key items cas => exact ⟨elsewhere.1, fun answer => ih answer (elsewhere.2 answer)⟩
    | _ => exact fun answer => ih answer (elsewhere answer)

theorem wall : Elsewhere (Program.wall : Program M ℚ) := fun _ => trivial

theorem get {key : Key} (away : Away key) :
    Elsewhere (Program.get key : Program M _) := bind ⟨away, fun _ => trivial⟩ ofExcept

theorem attempt {path : Key} (away : Away path) {new : Dict Value} {index : Nat} {lost : Program M (Dict Value)}
    (again : Elsewhere lost) : Elsewhere (Controller.attempt path new index lost) := by
  refine ⟨away, fun answer => ?_⟩
  cases answer with
  | ok index => trivial
  | error error =>
    cases error with
    | conflict package message =>
      cases package with
      | vmsplatform => exact again
      | cluster => trivial
    | python error => trivial
    | forbidden package message => trivial
    | refused message => trivial

theorem write {path : Key} (away : Away path) {mutate : Dict Value → Program M (Option (Dict Value))}
    (elsewhere : ∀ it, Elsewhere (mutate it)) : Elsewhere (Controller.write path mutate) := by
  have rounds : ∀ left, Elsewhere (Controller.writeRounds path mutate 10 left) := by
    intro left
    induction left with
    | zero => trivial
    | succ left ih =>
      apply bind (get away)
      intro found
      apply bind (elsewhere _)
      intro new
      cases new with
      | none => trivial
      | some new => exact attempt away ih
  exact rounds 10

end Elsewhere

theorem away_assignment (worker : String) : Away (vms.assignment worker) := by
  constructor
  · simp [isCameraKey, camerasKey, Subsystem.assignment, Subsystem.config, List.isPrefixOf]
  · simp [retentionKey, Subsystem.assignment, Subsystem.config]

theorem away_placement (cid : Int) : Away (placementKey cid) := by
  constructor
  · simp [isCameraKey, camerasKey, placementKey, Subsystem.config, List.isPrefixOf]
  · simp [retentionKey, placementKey, Subsystem.config]

theorem away_nextId : Away (vms.config ["next_id"]) := by
  constructor
  · simp [isCameraKey, camerasKey, Subsystem.config, List.isPrefixOf]
  · simp [retentionKey, Subsystem.config]

theorem Elsewhere.nextId : Elsewhere (VmsController.nextId : Program M Int) := by
  apply bind
  · apply write away_nextId
    intro it
    exact bind (value _) fun _ => trivial
  · intro new
    exact value _

theorem Elsewhere.assignRemove (worker unit : String) :
    Elsewhere (Controller.assignRemove vms worker unit : Program M Assignment) := by
  apply bind
  · apply write (away_assignment worker)
    intro it
    apply bind (value _)
    intro a
    split <;> trivial
  · intro written
    exact value _

theorem Elsewhere.placement (cid : Int) : Elsewhere (VmsController.placement cid : Program M (Option Placement)) := by
  apply bind (get (away_placement cid))
  intro found
  dsimp only
  split
  · exact bind (value _) fun _ => trivial
  · trivial

/-- What a deletion does to the placement of its camera. -/
theorem Elsewhere.unplace (cid : Int) (worker : String) :
    Elsewhere (Proc.within (.settled (toString cid) none) do
      let _ ← Controller.assignRemove vms worker (toString cid)
      let _ ← Controller.write (placementKey cid) fun it => do
        let now ← Program.wall
        let rev ← Program.value (it.getD "rev" (.int 0)).toInt
        return some (placementItems (.plain "") (.plain "deleted") now (rev + 1))
      return () : Program M Unit) := by
  apply within
  apply bind (assignRemove _ _)
  intro _
  apply bind
  · apply write (away_placement cid)
    intro it
    apply bind wall
    intro now
    exact bind (value _) fun _ => trivial
  · intro _
    trivial

variable {store : Variables} {view : View} {i : ι} {ledger : Ledger ι M}

/-- What the others leave alone survives a program that is about other rows. -/
theorem Books.elsewhere (honest : Honest store) {p : Program M α} (elsewhere : Elsewhere p)
    {holding : Ledger ι M → Prop}
    (stable : ∀ ledger ledger', holding ledger → Leaves i ledger ledger' → holding ledger') (holds : holding ledger) :
    Books store view i (fun _ ledger => holding ledger) p ledger := by
  induction p generalizing ledger with
  | ret value => exact Books.ret holds
  | raise error => exact Books.raise
  | call label request next ih =>
    intro ledger' moved
    have quiet : Still ledger' (ledgered store view i request ledger').2 ∧
        Elsewhere (next (ledgered store view i request ledger').1) := by
      cases request with
      | get key =>
        simp only [ledgered, elsewhere.1.1, Bool.false_and]
        exact ⟨.of_rows rfl rfl rfl, elsewhere.2 _⟩
      | put key items cas =>
        have away := elsewhere.1
        refine ⟨?_, elsewhere.2 _⟩
        obtain ⟨error, -, still⟩ | ⟨index, -, -, wrote⟩ :=
          @Books.put_cases ι M _ store view i honest key items cas ledger'
        · exact still
        · have author := wrote.author
          have owes := wrote.owes
          simp only [away.1, Bool.false_and, Bool.false_eq_true, if_false] at author owes
          refine ⟨wrote.rows ▸ .write _ _ _, owes, author, fun key' camera => ?_, fun cid => ?_⟩
          · rw [wrote.rows]
            apply Versioned.read_write_other
            rintro rfl
            rw [away.1] at camera
            cases camera
          · rw [wrote.rows]
            exact Versioned.read_write_other _ _ (Ne.symm (away.2 cid))
      | _ => exact ⟨.of_rows rfl rfl rfl, elsewhere _⟩
    refine ⟨quiet.1.does, ih _ quiet.2 ?_⟩
    exact stable _ _ (stable _ _ holds moved) (quiet.1.leaves i)

end Elsewhere

/-! ## What a call owes -/

section Debts

variable {i : ι} {cid days : Int} {ledger ledger' : Ledger ι M}

/-- Call `i` has touched no camera row. -/
structure Fresh (i : ι) (ledger : Ledger ι M) : Prop where
  owes : ledger.owes i = none
  author : ∀ (cid : Int) flag, ledger.author (cameraKey (toString cid)) ≠ some (i, flag)

/-- Call `i` has had its way with the row of one camera, which asks for these days if it asks for a number of them. -/
structure Owing (i : ι) (cid days : Int) (ledger : Ledger ι M) : Prop where
  owes : ledger.owes i = some (cameraKey (toString cid))
  author : ∀ (cid' : Int) flag, ledger.author (cameraKey (toString cid')) = some (i, flag) → cid' = cid
  wants : ∀ wanted, asks (ledger.rows.read (cameraKey (toString cid))) = some (some wanted) → days = wanted

/-- Call `i` has deleted the camera, if it was there, and its policy row is there if the call was allowed to count on it. -/
structure Deleting (i : ι) (cid : Int) (ledger : Ledger ι M) : Prop extends Owing i cid 0 ledger where
  held : ledger.author (cameraKey (toString cid)) = some (i, true) →
    (holds (ledger.rows.read (retentionKey cid))).isSome

/-- The policy rows have followed what call `i` changed. -/
def Settled (i : ι) (ledger : Ledger ι M) : Prop :=
  ∀ cid : Int, ledger.author (cameraKey (toString cid)) = some (i, true) →
    ledger.owes i = some (cameraKey (toString cid)) ∧ Agrees ledger.rows cid

omit [DecidableEq ι]

theorem Fresh.stable (fresh : Fresh i ledger) (leaves : Leaves i ledger ledger') : Fresh i ledger' where
  owes := leaves.owes.trans fresh.owes
  author cid flag mine := fresh.author cid flag (leaves.author _ flag (isCameraKey_cameraKey _) mine)

theorem Owing.stable (owing : Owing i cid days ledger) (leaves : Leaves i ledger ledger') :
    Owing i cid days ledger' where
  owes := leaves.owes.trans owing.owes
  author cid' flag mine := owing.author cid' flag (leaves.author _ flag (isCameraKey_cameraKey _) mine)
  wants wanted asked := by
    rw [leaves.asks _ (isCameraKey_cameraKey _) owing.owes] at asked
    exact owing.wants wanted asked

theorem Deleting.stable (deleting : Deleting i cid ledger) (leaves : Leaves i ledger ledger') :
    Deleting i cid ledger' where
  toOwing := deleting.toOwing.stable leaves
  held mine := leaves.held cid (deleting.held (leaves.author _ true (isCameraKey_cameraKey _) mine))

/-- What others do at other rows leaves a settled call settled. -/
theorem Settled.does {j : ι} (settled : Settled j ledger) (other : j ≠ i) (does : Does i ledger ledger') :
    Settled j ledger' := by
  intro cid mine
  obtain ⟨same, asked⟩ | ⟨taken, -⟩ := does.author (cameraKey (toString cid)) (isCameraKey_cameraKey _)
  · rw [same] at mine
    obtain ⟨owes, agrees⟩ := settled cid mine
    exact ⟨(does.owes j other).trans owes, does.agrees cid asked agrees⟩
  · rw [taken] at mine
    exact absurd (Prod.mk.inj (Option.some.inj mine)).1.symm other

theorem Settled.stable (settled : Settled i ledger) (leaves : Leaves i ledger ledger') : Settled i ledger' := by
  intro cid mine
  obtain ⟨owes, agrees⟩ := settled cid (leaves.author _ true (isCameraKey_cameraKey _) mine)
  exact ⟨leaves.owes.trans owes, leaves.agrees cid owes agrees⟩

/-- A call that owes one policy row is settled when that row agrees. -/
theorem Owing.settled (owing : Owing i cid days ledger)
    (agrees : ledger.author (cameraKey (toString cid)) = some (i, true) → Agrees ledger.rows cid) :
    Settled i ledger := by
  intro cid' mine
  obtain rfl := owing.author cid' true mine
  exact ⟨owing.owes, agrees mine⟩

theorem Owing.agrees (owing : Owing i cid days ledger)
    (held : holds (ledger.rows.read (retentionKey cid)) = some days) :
    Agrees ledger.rows cid := by
  intro asked found
  refine ⟨days, held, ?_⟩
  rintro wanted rfl
  exact owing.wants wanted found

end Debts

section Writes

variable {i : ι} {cid : Int} {ledger ledger' : Ledger ι M}

theorem holds_days (days : Int) : holds (some (stored [("days", .int days)])) = some days := by
  simp [holds, rowValues, stored, Dict.mapValues, Dict.get?_cons, Value.toInt, Except.toOption]

/-- Writing the policy row settles what the call owes. -/
theorem Owing.write {days : Int} (owing : Owing i cid days ledger)
    (wrote : Wrote i (retentionKey cid) [("days", .int days)] ledger ledger') :
    Does i ledger ledger' ∧ Owing i cid days ledger' ∧ Agrees ledger'.rows cid := by
  have owes := wrote.owes
  have author := wrote.author
  simp only [isCameraKey_retentionKey, Bool.false_and, Bool.false_eq_true, if_false] at owes author
  have cameras : ∀ key, isCameraKey key = true → ledger'.rows.read key = ledger.rows.read key := by
    intro key camera
    rw [wrote.rows]
    apply Versioned.read_write_other
    rintro rfl
    rw [isCameraKey_retentionKey] at camera
    cases camera
  have written : holds (ledger'.rows.read (retentionKey cid)) = some days := by
    rw [wrote.rows, Versioned.read_write_self, holds_days]
  have others : ∀ cid', cid' ≠ cid → ledger'.rows.read (retentionKey cid') = ledger.rows.read (retentionKey cid') := by
    intro cid' differs
    rw [wrote.rows]
    exact Versioned.read_write_other _ _ fun same => differs (retentionKey_inj same)
  have owing' : Owing i cid days ledger' := by
    refine ⟨owes ▸ owing.owes, fun cid' flag mine => owing.author cid' flag (author ▸ mine), fun wanted asked => ?_⟩
    rw [cameras _ (isCameraKey_cameraKey _)] at asked
    exact owing.wants wanted asked
  have agrees := owing'.agrees written
  refine ⟨?_, owing', agrees⟩
  constructor
  · exact wrote.rows ▸ .write _ _ _
  · exact fun j _ => by rw [owes]
  · exact fun key owed => by rwa [owes]
  · exact fun key camera => .inl ⟨by rw [author], congrArg asks (cameras key camera)⟩
  · intro cid' _ agreed
    by_cases same : cid' = cid
    · rw [same]
      exact agrees
    · exact agreed.of_reads (congrArg asks (cameras _ (isCameraKey_cameraKey _))) (others cid' same)
  · intro cid' held
    by_cases same : cid' = cid
    · rw [same, written]
      rfl
    · rwa [others cid' same]

/-- What writing a camera row does, and what the call owes then. -/
theorem Fresh.write {new : Dict Value} (fresh : Fresh i ledger)
    (wrote : Wrote i (cameraKey (toString cid)) new ledger ledger') :
    Does i ledger ledger' ∧ ledger'.owes i = some (cameraKey (toString cid)) ∧
      asks (ledger'.rows.read (cameraKey (toString cid))) = asks (some (stored new)) ∧
      ∀ (cid' : Int) flag, ledger'.author (cameraKey (toString cid')) = some (i, flag) →
        cid' = cid ∧ flag = ledger.follows (cameraKey (toString cid)) ∧
          asks (some (stored new)) ≠ asks (ledger.rows.read (cameraKey (toString cid))) := by
  have owes := wrote.owes
  have author := wrote.author
  simp only [isCameraKey_cameraKey, if_true, Bool.true_and, decide_eq_true_eq] at owes author
  have owed : ledger'.owes i = some (cameraKey (toString cid)) := by rw [owes, Function.update_self]
  have written : ledger'.rows.read (cameraKey (toString cid)) = some (stored new) := by
    rw [wrote.rows, Versioned.read_write_self]
  have others : ∀ key, key ≠ cameraKey (toString cid) → ledger'.rows.read key = ledger.rows.read key := by
    intro key differs
    rw [wrote.rows]
    exact Versioned.read_write_other _ _ differs
  have retentions : ∀ cid', ledger'.rows.read (retentionKey cid') = ledger.rows.read (retentionKey cid') := by
    intro cid'
    apply others
    intro same
    have camera := isCameraKey_retentionKey cid'
    rw [same, isCameraKey_cameraKey] at camera
    cases camera
  refine ⟨?_, owed, by rw [written], ?_⟩
  · constructor
    · exact wrote.rows ▸ .write _ _ _
    · intro j other
      rw [owes, Function.update_of_ne other]
    · intro key owed'
      rw [fresh.owes] at owed'
      cases owed'
    · intro key camera
      by_cases same : key = cameraKey (toString cid)
      · subst same
        by_cases asked : asks (some (stored new)) = asks (ledger.rows.read (cameraKey (toString cid)))
        · exact .inl ⟨by rw [author, if_neg (not_not.mpr asked)], by rw [AsksSame, written, asked]⟩
        · have changed : ¬ AsksSame ledger ledger' (cameraKey (toString cid)) := by
            rw [AsksSame, written]
            exact asked
          exact .inr ⟨by rw [author, if_pos asked, Function.update_self], changed, fresh.owes, owed⟩
      · refine .inl ⟨?_, by rw [AsksSame, others key same]⟩
        rw [author]
        split
        · exact Function.update_of_ne same _ _
        · rfl
    · intro cid' asked agreed
      exact agreed.of_reads asked (retentions cid')
    · intro cid' held
      rwa [retentions]
  · intro cid' flag mine
    rw [author] at mine
    split at mine
    next changed =>
      by_cases same : cid' = cid
      · subst same
        rw [Function.update_self] at mine
        cases mine
        exact ⟨rfl, rfl, changed⟩
      · rw [Function.update_of_ne fun keys => same (cameraKey_inj keys)] at mine
        exact absurd mine (fresh.author cid' flag)
    next => exact absurd mine (fresh.author cid' flag)

end Writes

/-! ## The rows that are written -/

theorem asks_present {row : Option Items}
    (there : (rowValues row).isEmpty = false) (stands : isDeleted (rowValues row) = false) :
    asks row = some ((rowValues row).getD "events_retention_days" (.int 365)).toInt.toOption := by
  simp [asks, there, stands]

/-- The days that a stored camera row asks for are those of its text. -/
theorem asks_stored {new : Dict Value} {value : Value} (stands : new.get? "deleted" = none)
    (days : new.get? "events_retention_days" = some value) :
    asks (some (stored new)) = some value.text.toInt.toOption := by
  have there : (rowValues (some (stored new))).isEmpty = false := by
    cases new with
    | nil => cases days
    | cons entry rest => rfl
  rw [asks_present there]
  · simp [Dict.getD, get?_rowValues, stored, days, Value.toInt]
  · simp [isDeleted, Dict.getD, get?_rowValues, stored, stands, Value.equals]

theorem asks_deleted {it : Dict Value} :
    asks (some (stored (it.set "deleted" (.str (.plain "true"))))) = some (some 0) := by
  have there : (rowValues (some (stored (it.set "deleted" (.str (.plain "true")))))).isEmpty = false := by
    cases it with
    | nil => rfl
    | cons entry rest =>
      simp only [Dict.set]
      split <;> rfl
  have gone : isDeleted (rowValues (some (stored (it.set "deleted" (.str (.plain "true")))))) = true := by
    simp [isDeleted, Dict.getD, get?_rowValues, stored, Value.equals]
  simp [asks, there, gone]

/-- A call whose row asks for what a value says owes that many days. -/
theorem wants_of_text {value : Value} {days wanted : Int} (read : value.toInt = .ok days)
    (asked : value.text.toInt.toOption = some wanted) : days = wanted := by
  cases text : value.text.toInt with
  | error error =>
    rw [text] at asked
    cases asked
  | ok n =>
    rw [text] at asked
    cases asked
    rw [toInt_of_text text] at read
    cases read
    rfl

theorem get?_merge_absent {fields r : Dict Value} {key : String} (absent : fields.get? key = none) :
    Dict.get? (fields.foldl (fun r field => r.set field.1 field.2) r) key = r.get? key := by
  induction fields generalizing r with
  | nil => rfl
  | cons field rest ih =>
    obtain ⟨first, value⟩ := field
    rw [Dict.get?_cons] at absent
    split at absent
    · cases absent
    next differs => rw [List.foldl_cons, ih absent, Dict.get?_set_other _ _ fun there => differs there.symm]

/-- A row that an update writes, and the row that it found. -/
structure Rewrites (fields it new : Dict Value) : Prop where
  there : it.isEmpty = false
  stands : isDeleted it = false
  stays : new.get? "deleted" = none
  days : ∃ value old, new.get? "events_retention_days" = some value ∧
    (it.getD "events_retention_days" (.int 365)).toInt = .ok old ∧
      (fields.get? "events_retention_days" = none → value = .int old)

theorem rewrites_of_updated {cid : Int} {fields it new : Dict Value} (made : updated cid fields it = .ok new) :
    Rewrites fields it new := by
  unfold updated at made
  split at made
  · cases made
  next there =>
    rw [Bool.not_eq_true, Bool.or_eq_false_iff] at there
    simp only [bind_eq_ok] at made
    obtain ⟨r, decoded, _, -, revision, -, made⟩ := made
    simp only [Vms.items, bind_eq_ok] at made
    obtain ⟨_, -, _, -, _, -, _, -, _, -, _, -, _, -, ends⟩ := made
    cases ends
    refine ⟨there.1, there.2, by simp [Dict.get?_cons], ?_⟩
    simp only [row, bind_eq_ok] at decoded
    obtain ⟨_, -, _, -, _, -, old, read, _, -, _, -, _, -, ends⟩ := decoded
    cases ends
    refine ⟨_, old, rfl, read, fun absent => ?_⟩
    rw [Dict.getD, Dict.get?_set_other _ _ (by decide), get?_merge_absent absent]
    simp [Dict.get?_cons]

theorem eventsRetention_row {it r : Dict Value} (decoded : row it = .ok r) :
    ∃ days, (it.getD "events_retention_days" (.int 365)).toInt = .ok days ∧ eventsRetention r = .ok days := by
  simp only [row, bind_eq_ok] at decoded
  obtain ⟨_, -, _, -, _, -, days, read, _, -, _, -, _, -, ends⟩ := decoded
  cases ends
  exact ⟨days, read, rfl⟩

theorem newRow_days {cid : Int} {source : Value} {fields r new : Dict Value} (made : newRow cid source fields = .ok r)
    (texts : items r = .ok new) :
    ∃ days, eventsRetention r = .ok days ∧ asks (some (stored new)) = some (some days) := by
  simp only [newRow, bind_eq_ok] at made
  obtain ⟨_, -, days, -, _, -, _, -, ends⟩ := made
  cases ends
  simp only [items, bind_eq_ok] at texts
  obtain ⟨_, -, _, -, _, -, _, -, _, -, _, -, _, -, ends⟩ := texts
  cases ends
  refine ⟨days, rfl, ?_⟩
  have asked : ∀ new : Dict Value, new.get? "deleted" = none → new.get? "events_retention_days" = some (.int days) →
      asks (some (stored new)) = some (some days) := by
    intro new stands found
    simp [asks_stored stands found, Except.toOption, Text.toInt]
  exact asked _ rfl rfl

/-! ## The calls -/

section Calls

variable {store : Variables} {view : View} {i : ι} {ledger : Ledger ι M}

/-- The policy row follows the camera's. -/
theorem retention_books (honest : Honest store) {cid days : Int} (owing : Owing i cid days ledger) :
    Books store view i (fun _ => Settled i) (retention cid (some days)) ledger := by
  let news (it : Dict Value) : Option (Dict Value) :=
    if (it.getD "days" .none).equals (toString days) then none else some [("days", .int days)]
  have wrote : Books store view i (fun _ => Settled i)
      (Controller.write (retentionKey cid) fun it => Proc.ret (news it)) ledger := by
    have pure : ∀ it, (Proc.ret (news it) : Program M _) = Program.value (.ok (news it)) := fun _ => rfl
    refine Books.write honest pure (fun _ _ => Owing.stable) owing (fun camera => ?_) ?_
    · rw [isCameraKey_retentionKey] at camera
      cases camera
    · intro before after owing looked
      have owes := looked.owes
      simp only [isCameraKey_retentionKey, Bool.false_and, Bool.false_eq_true, if_false] at owes
      have quiet : Still before after := .of_rows looked.rows looked.author owes
      have owing' := owing.stable (quiet.leaves i)
      cases new : news (rowValues (before.rows.read (retentionKey cid))) with
      | none =>
        apply owing'.settled
        intro _
        apply owing'.agrees
        rw [quiet.retentions]
        simp only [news, ite_eq_left_iff, reduceCtorEq, imp_false, not_not] at new
        rw [holds, Dict.getD] at *
        cases found : Dict.get? (rowValues (before.rows.read (retentionKey cid))) "days" with
        | none =>
          rw [found] at new
          cases new
        | some text =>
          rw [found] at new
          cases text with
          | str text =>
            simp only [Option.getD_some, Value.equals, decide_eq_true_eq] at new
            simp [Value.toInt, Text.toInt, new, Except.toOption]
          | _ => cases new
      | some new' =>
        have same : new' = [("days", .int days)] := by
          simp only [news] at new
          split at new
          · cases new
          · cases new
            rfl
        subst same
        refine ⟨owing', fun ledger' ledger'' leaves _ wrote => ?_⟩
        obtain ⟨does, owing'', agrees⟩ := (owing'.stable leaves).write wrote
        exact ⟨does, owing''.settled fun _ => agrees⟩
  exact Books.bind wrote fun _ _ settled => Books.ret settled

theorem retention_none_books (honest : Honest store) {cid : Int} (deleting : Deleting i cid ledger) :
    Books store view i (fun _ => Settled i) (retention cid none) ledger := by
  let news (it : Dict Value) : Option (Dict Value) := if it.isEmpty then none else some [("days", .int 0)]
  have wrote : Books store view i (fun _ => Settled i)
      (Controller.write (retentionKey cid) fun it => Proc.ret (news it)) ledger := by
    have pure : ∀ it, (Proc.ret (news it) : Program M _) = Program.value (.ok (news it)) := fun _ => rfl
    refine Books.write honest pure (fun _ _ => Deleting.stable) deleting (fun camera => ?_) ?_
    · rw [isCameraKey_retentionKey] at camera
      cases camera
    · intro before after deleting looked
      have owes := looked.owes
      simp only [isCameraKey_retentionKey, Bool.false_and, Bool.false_eq_true, if_false] at owes
      have quiet : Still before after := .of_rows looked.rows looked.author owes
      have deleting' := deleting.stable (quiet.leaves i)
      cases new : news (rowValues (before.rows.read (retentionKey cid))) with
      | none =>
        simp only [news, ite_eq_left_iff, reduceCtorEq, imp_false, not_not, List.isEmpty_iff] at new
        apply deleting'.settled
        intro mine
        have held := deleting'.held mine
        rw [quiet.retentions, holds, new] at held
        cases held
      | some new' =>
        have same : new' = [("days", .int 0)] := by
          simp only [news] at new
          split at new
          · cases new
          · cases new
            rfl
        subst same
        refine ⟨deleting', fun ledger' ledger'' leaves _ wrote => ?_⟩
        obtain ⟨does, owing, agrees⟩ := (deleting'.stable leaves).write wrote
        exact ⟨does, owing.settled fun _ => agrees⟩
  exact Books.bind wrote fun _ _ settled => Books.ret settled

theorem createCamera_books (honest : Honest store) (fields : Dict Value) (fresh : Fresh i ledger) :
    Books store view i (fun _ => Settled i) (createCamera fields) ledger := by
  unfold createCamera
  apply Books.ofExcept_bind
  intro _ _
  dsimp only
  split
  · exact Books.raise
  apply Books.bind (Books.elsewhere honest Elsewhere.nextId (fun _ _ => Fresh.stable) fresh)
  intro cid ledger fresh
  apply Books.value_bind
  intro r made
  apply Books.value_bind
  intro new texts
  obtain ⟨days, read, asked⟩ := newRow_days made texts
  apply Books.put honest
  intro ledger' ledger'' _ leaves allowed wrote
  obtain ⟨does, owes, asks', mine⟩ := (fresh.stable leaves).write wrote
  refine ⟨does, ?_⟩
  apply Books.value_bind
  intro days' read'
  rw [read] at read'
  cases read'
  have owing : Owing i cid days ledger'' := by
    refine ⟨owes, fun cid' flag taken => (mine cid' flag taken).1, fun wanted found => ?_⟩
    rw [asks', asked] at found
    cases found
    rfl
  exact Books.bind (retention_books honest owing) fun _ _ settled => Books.ret settled

theorem updateCamera_books (honest : Honest store) (cid : Int) (fields : Dict Value) (fresh : Fresh i ledger) :
    Books store view i (fun _ => Settled i) (updateCamera cid fields) ledger := by
  unfold updateCamera
  apply Books.ofExcept_bind
  intro _ _
  have wrote : Books store view i
      (fun written ledger => (∀ days, (written.getD "events_retention_days" (.int 365)).toInt = .ok days →
        Owing i cid days ledger) ∧
        (fields.get? "events_retention_days" = none → Settled i ledger))
      (Controller.write (cameraKey (toString cid)) fun it => some <$> Program.value (updated cid fields it))
      ledger := by
    have pure : ∀ it, (some <$> Program.value (updated cid fields it) : Program M _) =
        Program.value (some <$> updated cid fields it) := by
      intro it
      cases updated cid fields it <;> rfl
    refine Books.write honest pure (fun _ _ => Fresh.stable) fresh (fun _ _ fresh => fresh.owes) ?_
    intro before after fresh looked
    cases made : updated cid fields (rowValues (before.rows.read (cameraKey (toString cid)))) with
    | error error => exact trivial
    | ok new =>
      have rewrites := rewrites_of_updated made
      obtain ⟨value, old, found, read, kept⟩ := rewrites.days
      have asked := asks_present rewrites.there rewrites.stands
      rw [read] at asked
      have quiet : Still before after := by
        apply Still.of_rows looked.rows looked.author
        rw [looked.owes, asked]
        simp
      have fresh' := fresh.stable (quiet.leaves i)
      refine ⟨fresh', fun ledger' ledger'' leaves allowed wrote => ?_⟩
      have same : ledger'.rows.read (cameraKey (toString cid)) = before.rows.read (cameraKey (toString cid)) :=
        (quiet.later.trans leaves.later).read_of_matches allowed
      obtain ⟨does, owes, asks', mine⟩ := (fresh'.stable leaves).write wrote
      rw [asks_stored rewrites.stays found] at asks' mine
      refine ⟨does,
        fun days parsed => ⟨owes, fun cid' flag taken => (mine cid' flag taken).1, fun wanted found' => ?_⟩, ?_⟩
      · rw [asks', Option.some.injEq] at found'
        rw [Dict.getD, found] at parsed
        exact wants_of_text parsed found'
      · -- the days that were decoded are those that the row asked for
        intro absent cid' taken
        obtain ⟨-, -, changed⟩ := mine cid' true taken
        rw [same, asked, kept absent] at changed
        simp [Text.toInt, Except.toOption] at changed
  apply Books.bind wrote
  intro written ledger' ends
  apply Books.value_bind
  intro r decoded
  obtain ⟨days, parsed, read⟩ := eventsRetention_row decoded
  split
  · apply Books.value_bind
    intro days' read'
    rw [read] at read'
    cases read'
    exact Books.bind (retention_books honest (ends.1 days parsed)) fun _ _ settled => Books.ret settled
  next absent =>
    apply Books.ret
    apply ends.2
    simpa using absent

theorem deleteCamera_books (honest : Honest store) (cid : Int) (fresh : Fresh i ledger) :
    Books store view i (fun _ => Settled i) (deleteCamera cid) ledger := by
  let news (it : Dict Value) : Option (Dict Value) :=
    if it.isEmpty then none else some (it.set "deleted" (.str (.plain "true")))
  have wrote : Books store view i (fun _ => Deleting i cid)
      (Controller.write (cameraKey (toString cid)) fun it => Proc.ret (news it)) ledger := by
    have pure : ∀ it, (Proc.ret (news it) : Program M _) = Program.value (.ok (news it)) := fun _ => rfl
    refine Books.write honest pure (fun _ _ => Fresh.stable) fresh (fun _ _ fresh => fresh.owes) ?_
    intro before after fresh looked
    by_cases there : (rowValues (before.rows.read (cameraKey (toString cid)))).isEmpty = true
    · -- there is no camera: the ledger has noted who looked for it
      have asked : asks (before.rows.read (cameraKey (toString cid))) = none := by
        simp only [asks, there, if_true]
      simp only [news, there, if_true]
      have owes := looked.owes
      simp only [isCameraKey_cameraKey, asked, Option.isNone_none, Bool.and_self, if_true] at owes
      have free : ∀ (cid' : Int) flag, after.author (cameraKey (toString cid')) ≠ some (i, flag) := by
        intro cid' flag
        rw [looked.author]
        exact fresh.author cid' flag
      refine ⟨⟨by rw [owes, Function.update_self], fun cid' flag mine => absurd mine (free cid' flag), ?_⟩, ?_⟩
      · intro wanted found
        rw [looked.rows, asked] at found
        cases found
      · exact fun mine => absurd mine (free cid true)
    · rw [Bool.not_eq_true] at there
      simp only [news, there, Bool.false_eq_true, if_false]
      have quiet : Still before after := by
        apply Still.of_rows looked.rows looked.author
        rw [looked.owes]
        simp only [asks, there, Bool.false_eq_true, if_false]
        split <;> simp
      have fresh' := fresh.stable (quiet.leaves i)
      refine ⟨fresh', fun ledger' ledger'' leaves allowed wrote => ?_⟩
      obtain ⟨does, owes, asks', mine⟩ := (fresh'.stable leaves).write wrote
      have same : ledger'.rows.read (cameraKey (toString cid)) = before.rows.read (cameraKey (toString cid)) :=
        (quiet.later.trans leaves.later).read_of_matches allowed
      rw [asks_deleted] at asks'
      refine ⟨does, ⟨owes, fun cid' flag taken => (mine cid' flag taken).1, fun wanted found => ?_⟩, fun taken => ?_⟩
      · rw [asks'] at found
        cases found
        rfl
      · -- the camera was there, so the call counts on its policy row
        obtain ⟨-, counted, -⟩ := mine cid true taken
        have asked : (asks (ledger'.rows.read (cameraKey (toString cid)))).isNone = false := by
          rw [same]
          simp only [asks, there, Bool.false_eq_true, if_false]
          split <;> rfl
        rw [Ledger.follows, asked, Bool.false_or] at counted
        exact does.held cid counted.symm
  apply Books.bind wrote
  intro _ ledger' deleting
  apply Books.bind (retention_none_books honest deleting)
  intro _ ledger'' settled
  apply Books.bind (Books.elsewhere honest (Elsewhere.placement cid) (fun _ _ => Settled.stable) settled)
  intro placed _ settled
  cases placed with
  | none => exact Books.ret settled
  | some pl =>
    exact Books.elsewhere honest (Elsewhere.unplace cid pl.worker.string) (fun _ _ => Settled.stable) settled

end Calls

/-! ## Runs -/

/-- A call of a controller. -/
inductive Call where
  | create (fields : Dict Value)
  | update (cid : Int) (fields : Dict Value)
  | delete (cid : Int)

def Call.program : Call → Program M Unit
  | create fields => do let _ ← createCamera fields
  | update cid fields => do let _ ← updateCamera cid fields
  | delete cid => deleteCamera cid

/-- The calls, each of one controller, over a store. -/
def office (calls : ι → Call) (world : World ι M) : Pool (interface M) Phase Exn Unit (World ι M) ι :=
  ⟨fun i => (calls i).program, world⟩

/-- The same with an empty ledger. -/
def ledgerOf (calls : ι → Call) (world : World ι M) : Pool (interface M) Phase Exn Unit (Ledger ι M) ι :=
  ⟨fun i => (calls i).program, ⟨world, fun _ => none, fun _ => none⟩⟩

section Runs

variable {store : Variables} {view : ι → View}

/-- The pool without its ledger. -/
def plain (pool : Pool (interface M) Phase Exn Unit (Ledger ι M) ι) : Pool (interface M) Phase Exn Unit (World ι M) ι :=
  ⟨pool.procs, pool.state.world⟩

theorem ledgered_plain (store : Variables) (view : View) (i : ι) (request : Request M) (ledger : Ledger ι M) :
    (ledgered store view i request ledger).1 = (handler store view i request ledger.world).1 ∧
      (ledgered store view i request ledger).2.world = (handler store view i request ledger.world).2 := by
  cases request with
  | get key =>
    refine ⟨rfl, ?_⟩
    simp only [ledgered]
    split <;> rfl
  | put key items cas =>
    refine ⟨rfl, ?_⟩
    simp only [ledgered]
    split <;> rfl
  | _ => exact ⟨rfl, rfl⟩

/-- The ledger changes nothing of the run. -/
theorem plain_exec (store : Variables) (view : ι → View) (schedule : List ι)
    (pool : Pool (interface M) Phase Exn Unit (Ledger ι M) ι) :
    plain (Pool.exec (fun i => ledgered store (view i) i) schedule pool) =
      Pool.exec (fun i => handler store (view i) i) schedule (plain pool) := by
  induction schedule generalizing pool with
  | nil => rfl
  | cons i rest ih =>
    have same : plain (Pool.step (fun i => ledgered store (view i) i) pool i) =
        Pool.step (fun i => handler store (view i) i) (plain pool) i := by
      cases here : pool.procs i with
      | ret value | raise error =>
        rw [Pool.step_finished (by rw [here]; trivial), Pool.step_finished (by rw [plain, here]; trivial)]
      | call label request next =>
        have there : (plain pool).procs i = .call label request next := here
        obtain ⟨answer, world⟩ := ledgered_plain store (view i) i request pool.state
        rw [Pool.step_call here, Pool.step_call there]
        simp only [plain, answer, world]
    rw [Pool.exec_cons, Pool.exec_cons, ih, same]

def raised {α : Type} : Program M α → Bool
  | .raise _ => true
  | _ => false

/-- The step changes nothing that another call, not yet returned, counts on; nor does the call fail after it changed
what a row asks for. -/
structure Orderly (store : Variables) (view : ι → View)
    (pool : Pool (interface M) Phase Exn Unit (Ledger ι M) ι) (i : ι) :
    Prop where
  undisturbed : ∀ j, j ≠ i → ¬ (pool.procs j).Finished → ∀ key ∈ pool.state.owes j,
    AsksSame pool.state (Pool.step (fun i => ledgered store (view i) i) pool i).state key
  returns : raised ((Pool.step (fun i => ledgered store (view i) i) pool i).procs i) = true →
    ∀ key ∈ (Pool.step (fun i => ledgered store (view i) i) pool i).state.owes i,
      ∀ entry ∈ (Pool.step (fun i => ledgered store (view i) i) pool i).state.author key, entry.1 ≠ i

/-- What holds after every orderly step. -/
structure Kept (store : Variables) (view : ι → View) (pool : Pool (interface M) Phase Exn Unit (Ledger ι M) ι) :
    Prop where
  calls : ∀ j, Books store (view j) j (fun _ => Settled j) (pool.procs j) pool.state
  unwritten : ∀ cid : Int, pool.state.author (cameraKey (toString cid)) = none → Agrees pool.state.rows cid
  written : ∀ (cid : Int) j flag, pool.state.author (cameraKey (toString cid)) = some (j, flag) →
    flag = true ∧ pool.state.owes j = some (cameraKey (toString cid)) ∧ raised (pool.procs j) = false

/-- The policy agrees with a row whose author, if there is one, is done. -/
theorem Kept.agrees {pool : Pool (interface M) Phase Exn Unit (Ledger ι M) ι} (kept : Kept store view pool) {cid : Int}
    (done : ∀ entry ∈ pool.state.author (cameraKey (toString cid)), (pool.procs entry.1).Finished) :
    Agrees pool.state.rows cid := by
  cases author : pool.state.author (cameraKey (toString cid)) with
  | none => exact kept.unwritten cid author
  | some entry =>
    obtain ⟨j, flag⟩ := entry
    obtain ⟨rfl, -, unraised⟩ := kept.written cid j flag author
    have finished := done _ author
    have books := kept.calls j
    cases ends : pool.procs j with
    | ret value =>
      rw [ends] at books
      exact ((books value rfl : Settled j pool.state) cid author).2
    | raise error =>
      rw [ends] at unraised
      cases unraised
    | call label request next =>
      rw [ends] at finished
      exact finished.elim

theorem Kept.step
    (pool : Pool (interface M) Phase Exn Unit (Ledger ι M) ι) (i : ι) (orderly : Orderly store view pool i)
    (kept : Kept store view pool) : Kept store view (Pool.step (fun i => ledgered store (view i) i) pool i) := by
  cases here : pool.procs i with
  | ret value | raise error =>
    rw [Pool.step_finished (by rw [here]; trivial)]
    exact kept
  | call label request next =>
    have own := kept.calls i
    rw [here] at own
    obtain ⟨does, rest⟩ := own pool.state (.refl i pool.state)
    have stepped : Pool.step (fun i => ledgered store (view i) i) pool i = _ := Pool.step_call here
    have state : (Pool.step (fun i => ledgered store (view i) i) pool i).state =
        (ledgered store (view i) i request pool.state).2 := by rw [stepped]
    have others : ∀ j ≠ i, (Pool.step (fun i => ledgered store (view i) i) pool i).procs j = pool.procs j :=
      fun j other => Pool.step_procs_other other
    rw [← state] at does
    constructor
    · intro j
      by_cases same : j = i
      · subst same
        rw [stepped]
        simp only [Function.update_self]
        exact rest
      · rw [others j same]
        refine (kept.calls j).moved_post (fun _ _ _ _ => Leaves.trans) ?_ ?_
        · intro result ends value returned
          exact (ends value returned).does same does
        · intro _ waits
          refine does.leaves same fun key owed => orderly.undisturbed j same (fun finished => ?_) key owed
          cases ends : pool.procs j with
          | call label request next =>
            rw [ends] at finished
            exact finished
          | ret value | raise error =>
            rw [ends] at waits
            cases waits
    · intro cid unwritten
      obtain ⟨same, asked⟩ | ⟨taken, -⟩ := does.author (cameraKey (toString cid)) (isCameraKey_cameraKey _)
      · exact does.agrees cid asked (kept.unwritten cid (same ▸ unwritten))
      · rw [taken] at unwritten
        cases unwritten
    · intro cid j flag author
      obtain ⟨same, -⟩ | ⟨taken, changed, unowed, owed⟩ :=
        does.author (cameraKey (toString cid)) (isCameraKey_cameraKey _)
      · obtain ⟨counted, owes, unraised⟩ := kept.written cid j flag (same ▸ author)
        by_cases mine : j = i
        · subst mine
          have owes' := does.debt _ owes
          refine ⟨counted, owes', ?_⟩
          rw [← Bool.not_eq_true]
          exact fun fails => orderly.returns fails _ owes' _ author rfl
        · exact ⟨counted, (does.owes j mine).trans owes, by rw [others j mine]; exact unraised⟩
      · rw [taken] at author
        cases author
        refine ⟨?_, owed, ?_⟩
        · -- whoever wrote the row before is done, so its policy row is there
          by_cases absent : (asks (pool.state.rows.read (cameraKey (toString cid)))).isNone = true
          · rw [Ledger.follows, absent, Bool.true_or]
          · have agrees : Agrees pool.state.rows cid := by
              apply kept.agrees
              rintro ⟨j, flag⟩ author
              obtain ⟨-, owes, -⟩ := kept.written cid j flag author
              by_contra waits
              have other : j ≠ i := by
                rintro rfl
                rw [unowed] at owes
                cases owes
              exact changed (orderly.undisturbed j other waits _ owes)
            cases found : asks (pool.state.rows.read (cameraKey (toString cid))) with
            | none =>
              rw [found] at absent
              exact absurd rfl absent
            | some asked =>
              obtain ⟨days, held, -⟩ := agrees asked found
              have policy : policyKey (cameraKey (toString cid)) = retentionKey cid := rfl
              rw [Ledger.follows, policy, held, Option.isSome_some, Bool.or_true]
        · rw [← Bool.not_eq_true]
          exact fun fails => orderly.returns fails _ owed _ taken rfl

theorem kept_ledgerOf (honest : Honest store) (calls : ι → Call) {world : World ι M}
    (start : ∀ cid, Agrees world.vars cid) :
    Kept store view (ledgerOf calls world) := by
  have fresh : ∀ j, Fresh j (ledgerOf calls world).state := fun j => ⟨rfl, nofun⟩
  refine ⟨fun j => ?_, fun cid _ => start cid, nofun⟩
  show Books _ _ _ _ (calls j).program _
  cases calls j with
  | create fields => exact Books.bind (createCamera_books honest fields (fresh j)) fun _ _ settled => Books.ret settled
  | update cid fields => exact Books.bind (updateCamera_books honest cid fields (fresh j)) fun _ _ settled => Books.ret settled
  | delete cid => exact deleteCamera_books honest cid (fresh j)

/-- The calls and the store after a schedule. -/
def served (store : Variables) (view : ι → View) (calls : ι → Call) (world : World ι M) (schedule : List ι) :
    Pool (interface M) Phase Exn Unit (World ι M) ι :=
  Pool.exec (fun i => handler store (view i) i) schedule (office calls world)

/-- Every step of the schedule is orderly. -/
def OrderlyRun (store : Variables) (view : ι → View) (calls : ι → Call) (world : World ι M) (schedule : List ι) :
    Prop :=
  Along (Pool.step fun i => ledgered store (view i) i) (Orderly store view) schedule (ledgerOf calls world)

/-- Whatever the calls, their number and their interleaving: once they all have returned, the policy rows agree with the
camera rows, if each step was orderly. -/
theorem retention_follows (honest : Honest store) {calls : ι → Call} {world : World ι M} {schedule : List ι}
    (start : ∀ cid, Agrees world.vars cid) (orderly : OrderlyRun store view calls world schedule)
    (finished : (served store view calls world schedule).Finished) (cid : Int) :
    Agrees (served store view calls world schedule).state.vars cid := by
  have kept := orderly.keeps Kept.step (kept_ledgerOf honest calls start)
  have same : plain (Pool.exec (fun i => ledgered store (view i) i) schedule (ledgerOf calls world)) =
      served store view calls world schedule := plain_exec store view schedule (ledgerOf calls world)
  rw [← same] at finished ⊢
  exact kept.agrees fun entry _ => finished.all entry.1

end Runs

/-! ## A camera, and two edits of its days -/

instance (ledger ledger' : Ledger ι M) (key : Key) : Decidable (AsksSame ledger ledger' key) :=
  inferInstanceAs (Decidable (_ = _))

instance [Fintype ι] (store : Variables) (view : ι → View)
    (pool : Pool (interface M) Phase Exn Unit (Ledger ι M) ι) (i : ι) :
    Decidable (Orderly store view pool i) :=
  decidable_of_iff (_ ∧ _) ⟨fun both => ⟨both.1, both.2⟩, fun orderly => ⟨orderly.undisturbed, orderly.returns⟩⟩

instance [Fintype ι] (store : Variables) (view : ι → View) (calls : ι → Call) (world : World ι M) (schedule : List ι) :
    Decidable (OrderlyRun store view calls world schedule) :=
  instDecidableAlong _ _ schedule _

theorem freshWorld_agrees (ι : Type) (cid : Int) : Agrees (freshWorld ι).vars cid := nofun

/-- Somebody adds a camera; two controllers say how long its events are kept. -/
def threeEdits : Fin 3 → Call
  | 0 => .create [("source", .str (.plain "driverpack://file/gate"))]
  | 1 => .update 1 [("events_retention_days", .int 10)]
  | 2 => .update 1 [("events_retention_days", .int 20)]

def edited (calls : Fin 3 → Call) (schedule : List (Fin 3)) :
    Pool (interface Unit) Phase Exn Unit (World (Fin 3) Unit) (Fin 3) :=
  served FileVariables (fun _ => {}) calls (freshWorld (Fin 3)) schedule

-- The literals of the schedules take their instance by name.
local instance threeEditors : NeZero 3 := ⟨by decide⟩

/-- One after the other. -/
def inTurn : List (Fin 3) := List.replicate 5 0 ++ List.replicate 4 1 ++ List.replicate 4 2

theorem retention_follows_in_turn :
    Agrees (served FileVariables (fun _ => {}) threeEdits (freshWorld (Fin 3)) inTurn).state.vars 1 :=
  have orderly : OrderlyRun FileVariables (fun _ => {}) threeEdits (freshWorld (Fin 3)) inTurn := by decide +kernel
  have finished : (served FileVariables (fun _ => {}) threeEdits (freshWorld (Fin 3)) inTurn).Finished :=
    ⟨by decide +kernel⟩
  retention_follows FileVariables.honest (freshWorld_agrees (Fin 3)) orderly finished 1

/-- The second update runs between the two writes of the first. -/
def oneInsideTheOther : List (Fin 3) :=
  List.replicate 5 0 ++ List.replicate 2 1 ++ List.replicate 4 2 ++ List.replicate 2 1

theorem retention_row_disagrees : ¬ ∀ (calls : Fin 3 → Call) (schedule : List (Fin 3)),
    (∀ cid, Agrees (freshWorld (Fin 3)).vars cid) → (edited calls schedule).Finished →
      ∀ cid, Agrees (edited calls schedule).state.vars cid := by
  intro claim
  have finished : (edited threeEdits oneInsideTheOther).Finished := ⟨by decide +kernel⟩
  have agrees := claim threeEdits oneInsideTheOther (freshWorld_agrees (Fin 3)) finished 1
  have asked : asks ((edited threeEdits oneInsideTheOther).state.vars.read (cameraKey (toString (1 : Int)))) =
      some (some 20) := by decide +kernel
  have held : holds ((edited threeEdits oneInsideTheOther).state.vars.read (retentionKey 1)) = some 10 := by
    decide +kernel
  obtain ⟨days, found, same⟩ := agrees _ asked
  have ten : days = 10 := Option.some.inj (found.symm.trans held)
  rw [ten] at same
  exact absurd (same 20 rfl) (by decide)

end EdgeVms.Verified.RetentionRows
