import EdgeVms.Process.Pool
import EdgeVms.Platform.Contract

/-! # Rules for the platform's programs

Rely and guarantee over the rows of an honest store: one rule for each request,
one for `Controller.write`, and `ReadsOnly` for everything that only looks.
-/

namespace EdgeVms.Verified

open Process Python Platform

variable {ι M α β : Type} [DecidableEq ι]

/-- A relation on rows, between worlds. -/
def OnRows (relation : Rows → Rows → Prop) (world world' : World ι M) : Prop :=
  relation world.vars world'.vars

/-- The postcondition of a result that is not an exception. -/
def Returns (post : α → Rows → Prop) : Except Exn α → World ι M → Prop
  | .ok value, world => post value world.vars
  | .error _, _ => True

/-- Safe, with a rely for each phase and a postcondition, all on rows. -/
def Keeps (store : Variables) (view : View) (i : ι) (rely : Phase → Rows → Rows → Prop)
    (guarantee : Rows → Rows → Prop) (post : α → Rows → Prop) (p : Program M α) (world : World ι M) :
    Prop :=
  Safe (handler store view i) (fun phase => OnRows (rely phase)) (OnRows guarantee) (Returns post) p world

/-- Every request only looks. -/
def ReadsOnly : Program M α → Prop
  | .call _ (.put _ _ _) _ => False
  | .call _ (.remember _) _ => False
  | .call _ _ next => ∀ answer, ReadsOnly (next answer)
  | _ => True

namespace ReadsOnly

theorem ret (value : α) : ReadsOnly (Proc.ret value : Program M α) := trivial

theorem value (result : Except Error α) : ReadsOnly (Program.value result : Program M α) := by
  cases result <;> trivial

theorem bind {p : Program M α} {f : α → Program M β} (first : ReadsOnly p)
    (later : ∀ value, ReadsOnly (f value)) : ReadsOnly (p >>= f) := by
  induction p with
  | ret value => exact later value
  | raise error => trivial
  | call label request next ih =>
    cases request with
    | put key items cas => exact first.elim
    | remember change => exact first.elim
    | _ => exact fun answer => ih answer (first answer)

theorem map {f : α → β} {p : Program M α} (reads : ReadsOnly p) : ReadsOnly (f <$> p) :=
  bind reads fun _ => trivial

theorem ofExcept (result : Except Exn α) : ReadsOnly (Proc.ofExcept result : Program M α) := by
  cases result <;> trivial

theorem get (key : Key) : ReadsOnly (Program.get key : Program M _) :=
  bind (fun _ => trivial) ofExcept

theorem seenRounds (sub : Subsystem) (now maxAge : ℚ) (names : List String) (out : Dict Heartbeat) :
    ReadsOnly (Controller.seenRounds sub now maxAge names out : Program M _) := by
  induction names generalizing out with
  | nil => trivial
  | cons name rest ih =>
    refine bind (bind (fun _ => trivial) ofExcept) fun beat => ?_
    cases beat with
    | none => exact ih _
    | some beat => exact ih _

theorem workersSeen (sub : Subsystem) (maxAge : ℚ) :
    ReadsOnly (Controller.workersSeen sub maxAge : Program M _) :=
  bind (fun _ => trivial) fun _ => bind (fun _ => trivial) fun _ => seenRounds sub _ _ _ _

theorem assignment (sub : Subsystem) (worker : String) :
    ReadsOnly (Controller.assignment sub worker : Program M _) :=
  bind (get _) fun _ => value _

theorem slotsRounds (paths : List Key) (out : Dict Slot) :
    ReadsOnly (Controller.slotsRounds paths out : Program M _) := by
  induction paths generalizing out with
  | nil => trivial
  | cons path rest ih => exact bind (get _) fun _ => bind (value _) fun _ => ih _

theorem releasedRounds (sub : Subsystem) (slots : List (String × Slot)) (out : List String) :
    ReadsOnly (Controller.releasedRounds sub slots out : Program M _) := by
  induction slots generalizing out with
  | nil => trivial
  | cons entry rest ih =>
    obtain ⟨name, slot⟩ := entry
    unfold Controller.releasedRounds
    split
    · exact bind (assignment sub name) fun a => ih _
    · exact ih _

theorem releasedSlots (sub : Subsystem) : ReadsOnly (Controller.releasedSlots sub : Program M _) :=
  bind (bind (fun _ => trivial) fun _ => slotsRounds _ _) fun _ =>
    bind (releasedRounds sub _ _) fun _ => value _

end ReadsOnly

namespace Keeps

variable {store : Variables} {view : View} {i : ι} {rely : Phase → Rows → Rows → Prop}
  {guarantee : Rows → Rows → Prop} {post : α → Rows → Prop} {world : World ι M}

theorem ret {value : α} (holds : post value world.vars) :
    Keeps store view i rely guarantee post (Proc.ret value) world := holds

theorem value {result : Except Error α} (holds : ∀ value, result = .ok value → post value world.vars) :
    Keeps store view i rely guarantee post (Program.value result) world := by
  cases result with
  | error error => trivial
  | ok value => exact holds value rfl

theorem mono {weak : α → Rows → Prop} {p : Program M α} (implies : ∀ value rows, post value rows → weak value rows)
    (keeps : Keeps store view i rely guarantee post p world) :
    Keeps store view i rely guarantee weak p world := by
  refine Safe.mono (fun result world' ends => ?_) keeps
  cases result with
  | error error => trivial
  | ok value => exact implies value _ ends

theorem relies {less : Phase → Rows → Rows → Prop} {p : Program M α}
    (implies : ∀ phase rows rows', less phase rows rows' → rely phase rows rows')
    (keeps : Keeps store view i rely guarantee post p world) :
    Keeps store view i less guarantee post p world :=
  Safe.relies (fun phase _ _ moved => implies phase _ _ moved) keeps

theorem within (phase : Phase) {p : Program M α}
    (keeps : Keeps store view i (fun _ => rely phase) guarantee post p world) :
    Keeps store view i rely guarantee post (p.within phase) world := Safe.within keeps

theorem bind {middle : α → Rows → Prop} {last : β → Rows → Prop} {p : Program M α} {f : α → Program M β}
    (first : Keeps store view i rely guarantee middle p world)
    (later : ∀ value (world' : World ι M), middle value world'.vars →
      Keeps store view i rely guarantee last (f value) world') :
    Keeps store view i rely guarantee last (p >>= f) world := by
  refine Safe.bind (Safe.mono (fun result world' ends => ?_) first)
  cases result with
  | error error => trivial
  | ok value => exact later value world' ends

/-- `bind`, with the fact that the two parts share. -/
theorem cut (middle : α → Rows → Prop) {last : β → Rows → Prop} {p : Program M α} {f : α → Program M β}
    (first : Keeps store view i rely guarantee middle p world)
    (later : ∀ value (world' : World ι M), middle value world'.vars →
      Keeps store view i rely guarantee last (f value) world') :
    Keeps store view i rely guarantee last (p >>= f) world := bind first later

theorem caught {p : Program M Unit}
    (keeps : Keeps store view i rely guarantee (fun _ _ => True) p world) :
    Keeps store view i rely guarantee (fun _ _ => True) (tryCatch p fun _ => return ()) world := by
  refine Safe.tryCatch (Safe.mono (fun result world' _ => ?_) keeps)
  cases result with
  | error error => trivial
  | ok value => trivial

theorem value_bind {last : β → Rows → Prop} {result : Except Error α} {f : α → Program M β}
    (later : ∀ value, result = .ok value → Keeps store view i rely guarantee last (f value) world) :
    Keeps store view i rely guarantee last (Program.value result >>= f) world := by
  cases result with
  | error error => trivial
  | ok value => exact later value rfl

section Requests

variable (quiet : ∀ rows, guarantee rows rows)
include quiet

theorem readsOnly {p : Program M α} (reads : ReadsOnly p) :
    Keeps store view i rely guarantee (fun _ _ => True) p world := by
  induction p generalizing world with
  | ret value | raise error => trivial
  | call label request next ih =>
    intro world' moved
    cases request with
    | put key items cas => exact reads.elim
    | remember change => exact reads.elim
    | _ => exact ⟨quiet _, ih _ (reads _)⟩

/-- What was seen before a program that only looks is as far away after it. -/
theorem readsOnly_since {p : Program M α} (reads : ReadsOnly p) {base : Rows}
    (idle : ∀ phase rows rows', rely phase rows rows' → rely .idle rows rows')
    (transitive : ∀ rows rows' rows'', rely .idle rows rows' → rely .idle rows' rows'' → rely .idle rows rows'')
    (since : rely .idle base world.vars) :
    Keeps store view i rely guarantee (fun _ rows => rely .idle base rows) p world := by
  induction p generalizing world with
  | ret value => exact since
  | raise error => trivial
  | call label request next ih =>
    intro world' moved
    have since' := transitive _ _ _ since (idle _ _ _ moved)
    cases request with
    | put key items cas => exact reads.elim
    | remember change => exact reads.elim
    | _ => exact ⟨quiet _, ih _ (reads _) since'⟩

theorem get (honest : Honest store) {key : Key} {f : Option Items × Nat → Program M α}
    (next : ∀ world' : World ι M, rely .idle world.vars world'.vars →
      Keeps store view i rely guarantee post (f (world'.vars.read key, world'.vars.version key)) world') :
    Keeps store view i rely guarantee post (Program.get key >>= f) world := by
  intro world' moved
  refine ⟨quiet _, ?_⟩
  simp only [handler]
  cases answered : store.get world'.vars key with
  | error error => trivial
  | ok answer =>
    obtain ⟨items, index⟩ := answer
    obtain ⟨rfl, rfl⟩ := honest.get_ok answered
    exact next world'.tick moved

theorem list (honest : Honest store) {above : Key} {f : List Key → Program M α}
    (next : ∀ world' : World ι M, rely .idle world.vars world'.vars →
      Keeps store view i rely guarantee post (f (listing world'.vars above)) world') :
    Keeps store view i rely guarantee post (Program.list above >>= f) world := by
  intro world' moved
  refine ⟨quiet _, ?_⟩
  simp only [handler, honest.list_eq]
  exact next world'.tick moved

theorem wall {f : ℚ → Program M α}
    (next : ∀ now (world' : World ι M), rely .idle world.vars world'.vars →
      Keeps store view i rely guarantee post (f now) world') :
    Keeps store view i rely guarantee post (Program.wall >>= f) world :=
  fun world' moved => ⟨quiet _, next _ world'.tick moved⟩

theorem put (honest : Honest store) {key : Key} {items : Dict Value} {cas : Option Nat}
    {f : Nat → Program M α}
    (writes : ∀ rows, rely .idle world.vars rows → rows.Matches key cas →
      guarantee rows (rows.write key (stored items)))
    (next : ∀ (world' : World ι M) index, Keeps store view i rely guarantee post (f index) world') :
    Keeps store view i rely guarantee post (Program.put key items cas >>= f) world := by
  intro world' moved
  simp only [handler]
  obtain ⟨error, answered⟩ | ⟨index, allowed, answered⟩ :=
    honest.put_cases view world'.vars key items cas
  · rw [answered]
    exact ⟨quiet _, trivial⟩
  · rw [answered]
    exact ⟨writes _ moved allowed, next _ index⟩

/-- A check-and-set that is tried again when it is lost. -/
theorem attempt (honest : Honest store) {path : Key} {new : Dict Value} {index : Nat}
    {lost : Program M (Dict Value)} {post : Dict Value → Rows → Prop}
    (writes : ∀ rows, rely .idle world.vars rows → rows.Matches path (some index) →
      guarantee rows (rows.write path (stored new)) ∧ post new (rows.write path (stored new)))
    (again : ∀ world' : World ι M, rely .idle world.vars world'.vars →
      Keeps store view i rely guarantee post lost world') :
    Keeps store view i rely guarantee post (Controller.attempt path new index lost) world := by
  intro world' moved
  simp only [handler]
  obtain ⟨error, answered⟩ | ⟨number, allowed, answered⟩ :=
    honest.put_cases view world'.vars path new (some index)
  · rw [answered]
    refine ⟨quiet _, ?_⟩
    -- only the platform's own Conflict is caught
    cases error with
    | conflict package message =>
      cases package with
      | vmsplatform => exact again world'.tick moved
      | cluster => trivial
    | python error => trivial
    | forbidden package message => trivial
    | refused message => trivial
  · rw [answered]
    exact ⟨(writes _ moved allowed).1, (writes _ moved allowed).2⟩

/-- Read-modify-write: what `mutate` makes of the row it is given holds of the row it replaces. -/
theorem write (honest : Honest store) {path : Key}
    {mutate : Dict Value → Program M (Option (Dict Value))} {post : Dict Value → Rows → Prop}
    (transitive : ∀ rows rows' rows'', rely .idle rows rows' → rely .idle rows' rows'' → rely .idle rows rows'')
    (round : ∀ world' : World ι M, rely .idle world.vars world'.vars →
      Keeps store view i rely guarantee
        (fun new rows => rely .idle world.vars rows ∧ match new with
          | none => post (rowValues (world'.vars.read path)) rows
          | some new => ∀ rows', rely .idle rows rows' →
              rows'.Matches path (some (world'.vars.version path)) →
              guarantee rows' (rows'.write path (stored new)) ∧ post new (rows'.write path (stored new)))
        (mutate (rowValues (world'.vars.read path))) world') :
    Keeps store view i rely guarantee post (Controller.write path mutate) world := by
  have rounds : ∀ left (now : World ι M), now = world ∨ rely .idle world.vars now.vars →
      Keeps store view i rely guarantee post (Controller.writeRounds path mutate 10 left) now := by
    intro left
    induction left with
    | zero => exact fun _ _ => trivial
    | succ left ih =>
      intro now later
      refine get quiet honest fun world' moved => ?_
      have moved' : rely .idle world.vars world'.vars := by
        obtain rfl | later := later
        · exact moved
        · exact transitive _ _ _ later moved
      refine bind (round world' moved') fun new world'' ends => ?_
      cases new with
      | none => exact ends.2
      | some new =>
        refine attempt quiet honest (fun rows after allowed => ends.2 rows after allowed) fun retry after => ?_
        exact ih retry (.inr (transitive _ _ _ ends.1 after))
  exact rounds 10 world (.inl rfl)

end Requests

end Keeps

end EdgeVms.Verified
