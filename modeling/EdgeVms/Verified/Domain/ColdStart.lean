import EdgeVms.Domain.KeyStore

/-! # Cold starts and rotations side by side

`_persist` reads the index that its write must match, so the write is protected
from there on only.  `Going` is where a call may stand when nobody wrote the
variable between what the call started from and that read.
-/

namespace EdgeVms.Verified.ColdStart

open Process Domain

variable {K κ : Type}

/-- Some calls over one variable. -/
abbrev Calls (K κ : Type) := Pool (signerInterface K κ) (SignerPhase K) SignerError Unit (SignerStore K κ) κ

def begun (calls : κ → SignerCall K κ) (row : Versioned Unit fun _ => Keys K) : Calls K κ :=
  ⟨fun c => (calls c).program c, .start row⟩

/-- The call is a rotation of this instance. -/
def Rotates (calls : κ → SignerCall K κ) (c which : κ) : Prop :=
  ∃ bundle overlap now key, calls c = .rotate which bundle overlap now key

/-- A rotation of the instance has begun and has not ended. -/
def InFlight (calls : κ → SignerCall K κ) (pool : Calls K κ) (which : κ) : Prop :=
  ∃ c, Rotates calls c which ∧ ∃ phase, (pool.procs c).label? = some phase ∧ phase ≠ .idle

/-- When `_persist` reads its index, the variable holds what the call started from, and the write of
a rotation is not lost. -/
def Allowed (pool : Calls K κ) (c : κ) : Prop :=
  match (pool.procs c).label?, (pool.procs c).request? with
  | some (.rereading started), _ => (pool.state.row.read ()).map Keys.root = started
  | some (.writing (some _)), some (.put _ cas) => cas = pool.state.row.version ()
  | _, _ => True

instance [DecidableEq K] (pool : Calls K κ) (c : κ) : Decidable (Allowed pool c) := by
  unfold Allowed
  split <;> infer_instance

/-! ## Where a call stands -/

def storing (c : κ) (signer : Signer K) : SignerProgram K κ Unit :=
  .call .idle (.swap c fun _ => some signer) fun _ => .ret ()

def putting (c : κ) (signer : Signer K) (idx : Nat) : SignerProgram K κ Unit :=
  .call (.writing none) (.put signer.keys idx) fun answer => (Proc.ofExcept answer).bind fun _ => storing c signer

def creating (c : κ) (signer : Signer K) : SignerProgram K κ Unit :=
  .call (.rereading none) .get fun answer => putting c signer answer.2

def replacing (old : Root K) (items : Keys K) (idx : Nat) : SignerProgram K κ Unit :=
  .call (.writing (some old)) (.put items idx) fun answer => (Proc.ofExcept answer).bind fun _ => .ret ()

def recalling (which : κ) (old : Root K) (idx : Nat) : SignerProgram K κ Unit :=
  .call .recalling (.swap which id) fun
    | none => .raise .noInstance
    | some me => replacing old me.keys idx

def rotated (which : κ) (old : Root K) : SignerProgram K κ Unit :=
  .call (.rereading (some old)) .get fun answer => recalling which old answer.2

theorem construct_eq (c : κ) (domain org : String) (now : ℚ) (key tokenKey : K) (kid : String) :
    (SignerCall.construct domain org now key tokenKey kid).program c =
      .call .idle .get fun
        | (some items, _) => storing c (.load domain org items)
        | (none, _) => creating c (.create domain org now key tokenKey kid) := by
  show Proc.call _ _ _ = _
  congr 1
  funext answer
  obtain ⟨items, version⟩ := answer
  cases items with
  | some items => rfl
  | none =>
    show Proc.call _ _ _ = Proc.call _ _ _
    congr 1
    funext reread
    show Proc.call _ _ _ = Proc.call _ _ _
    congr 1
    funext written
    cases written <;> rfl

theorem rotate_eq (c which : κ) (bundle : TrustBundle K) (overlap now : ℚ) (key : K) :
    (SignerCall.rotate which bundle overlap now key).program c =
      .call .idle (.swap which (Option.map fun signer => signer.withNewRoot now key)) fun
        | none => .raise .noInstance
        | some signer => rotated which signer.root := by
  show Proc.call _ _ _ = _
  congr 1
  funext before
  cases before with
  | none => rfl
  | some signer =>
    show Proc.call _ _ _ = Proc.call _ _ _
    congr 1
    funext reread
    show Proc.call _ _ _ = Proc.call _ _ _
    congr 1
    funext me
    cases me with
    | none => rfl
    | some me =>
      show Proc.call _ _ _ = Proc.call _ _ _
      congr 1
      funext written
      cases written <;> rfl

/-! ## What is promised -/

variable [DecidableEq κ]

def step (pool : Calls K κ) (c : κ) : Calls K κ := pool.step (fun _ => SignerStore.handler) c

/-- A root is replaced by a rotation that started from it, if at all. -/
def Faithful (pool : Calls K κ) (c : κ) : Prop :=
  ∀ items ∈ pool.state.row.read (), (step pool c).state.row.version () ≠ pool.state.row.version () →
    (pool.procs c).label? = some (.writing (some items.root))

instance [DecidableEq K] (pool : Calls K κ) (c : κ) : Decidable (Faithful pool c) := by
  unfold Faithful
  infer_instance

/-- Every instance that is not being rotated holds a root that the variable holds or has held. -/
def Anchored (calls : κ → SignerCall K κ) (pool : Calls K κ) : Prop :=
  ∀ which signer, pool.state.memory which = some signer → ¬InFlight calls pool which →
    signer.root ∈ pool.state.persisted

/-- What one call may be up to, with the root that it is about to put in place of another. -/
inductive Going (calls : κ → SignerCall K κ) (c : κ) (store : SignerStore K κ) : SignerProgram K κ Unit → Prop
  | fresh : Going calls c store ((calls c).program c)
  | storing (signer) (held : signer.root ∈ store.persisted) : Going calls c store (storing c signer)
  | creating (signer) : Going calls c store (creating c signer)
  | putting (signer) (base : Versioned Unit fun _ => Keys K) (later : base.Later store.row)
    (nothing : base.read () = none) : Going calls c store (putting c signer (base.version ()))
  | rotated {which} (rotates : Rotates calls c which) (old) : Going calls c store (rotated which old)
  | recalling {which} (rotates : Rotates calls c which) (old) (base : Versioned Unit fun _ => Keys K)
    (later : base.Later store.row) (was : (base.read ()).map Keys.root = some old) :
    Going calls c store (recalling which old (base.version ()))
  | replacing {which} (rotates : Rotates calls c which) (old items) (base : Versioned Unit fun _ => Keys K)
    (later : base.Later store.row) (was : (base.read ()).map Keys.root = some old) :
    Going calls c store (replacing old items (base.version ()))
  | ended {p} (finished : p.Finished) : Going calls c store p

/-- The call is to put this root into the variable. -/
def Prepares (p : SignerProgram K κ Unit) (root : Root K) : Prop :=
  (∃ old, p.label? = some (.rereading (some old))) ∨ p.label? = some .recalling ∨
    ∃ old items cas, p.label? = some (.writing (some old)) ∧ p.request? = some (.put items cas) ∧ items.root = root

/-- The root of an instance has been persisted, or a rotation is about to. -/
def Pending (calls : κ → SignerCall K κ) (pool : Calls K κ) (which : κ) (root : Root K) : Prop :=
  root ∈ pool.state.persisted ∨ ∃ c, Rotates calls c which ∧ Prepares (pool.procs c) root

structure Agrees (calls : κ → SignerCall K κ) (pool : Calls K κ) : Prop where
  going : ∀ c, Going calls c pool.state (pool.procs c)
  current : ∀ items, pool.state.row.read () = some items → items.root ∈ pool.state.persisted
  pending : ∀ which signer, pool.state.memory which = some signer → Pending calls pool which signer.root

section

omit [DecidableEq κ]

variable {calls : κ → SignerCall K κ} {pool : Calls K κ} {c : κ}

/-- Other calls may write and remember meanwhile. -/
theorem Going.later {store store' : SignerStore K κ} {p : SignerProgram K κ Unit} (going : Going calls c store p)
    (rows : store.row.Later store'.row) (held : ∀ root ∈ store.persisted, root ∈ store'.persisted) :
    Going calls c store' p := by
  cases going with
  | fresh => exact .fresh
  | storing signer there => exact .storing signer (held _ there)
  | creating signer => exact .creating signer
  | putting signer base later nothing => exact .putting signer base (later.trans rows) nothing
  | rotated rotates old => exact .rotated rotates old
  | recalling rotates old base later was => exact .recalling rotates old base (later.trans rows) was
  | replacing rotates old items base later was => exact .replacing rotates old items base (later.trans rows) was
  | ended finished => exact .ended finished

theorem Prepares.phase {p : SignerProgram K κ Unit} {root : Root K} (prepares : Prepares p root) :
    ∃ phase, p.label? = some phase ∧ phase ≠ .idle := by
  obtain ⟨old, label⟩ | label | ⟨old, items, cas, label, -⟩ := prepares
  · exact ⟨_, label, nofun⟩
  · exact ⟨_, label, nofun⟩
  · exact ⟨_, label, nofun⟩

/-- A call that waits for a request of no phase prepares nothing. -/
theorem not_prepares_idle {request : SignerRequest K κ} {next : request.Answer → SignerProgram K κ Unit}
    {root : Root K} : ¬Prepares (.call .idle request next) root := by
  intro prepares
  obtain ⟨phase, label, busy⟩ := prepares.phase
  cases label
  exact busy rfl

theorem Agrees.anchored (agrees : Agrees calls pool) : Anchored calls pool := by
  intro which signer there idle
  obtain held | ⟨c, rotates, prepares⟩ := agrees.pending which signer there
  · exact held
  · exact absurd ⟨c, rotates, prepares.phase⟩ idle

theorem agrees_begun (calls : κ → SignerCall K κ) (row : Versioned Unit fun _ => Keys K) :
    Agrees calls (begun calls row) where
  going _ := .fresh
  current items there := by
    have there' : row.read () = some items := there
    simp [begun, SignerStore.start, there']
  pending which signer there := by cases there

end

/-! ## One step -/

variable {calls : κ → SignerCall K κ} {pool : Calls K κ} {c : κ}

theorem Pending.kept {which : κ} {root : Root K} {p' : SignerProgram K κ Unit} {store' : SignerStore K κ}
    (pending : Pending calls pool which root) (held : ∀ root ∈ pool.state.persisted, root ∈ store'.persisted)
    (own : Rotates calls c which → Prepares (pool.procs c) root → Prepares p' root ∨ root ∈ store'.persisted) :
    Pending calls ⟨Function.update pool.procs c p', store'⟩ which root := by
  obtain there | ⟨c', rotates, prepares⟩ := pending
  · exact .inl (held root there)
  · by_cases same : c' = c
    · subst same
      obtain still | there := own rotates prepares
      · exact .inr ⟨c', rotates, by simpa only [Function.update_self] using still⟩
      · exact .inl there
    · exact .inr ⟨c', rotates, by simpa only [Function.update_of_ne same] using prepares⟩

theorem Agrees.moved {p' : SignerProgram K κ Unit} {store' : SignerStore K κ} (agrees : Agrees calls pool)
    (own : Going calls c store' p') (rows : pool.state.row.Later store'.row)
    (held : ∀ root ∈ pool.state.persisted, root ∈ store'.persisted)
    (current : ∀ items, store'.row.read () = some items → items.root ∈ store'.persisted)
    (pending : ∀ which signer, store'.memory which = some signer →
      Pending calls ⟨Function.update pool.procs c p', store'⟩ which signer.root) :
    Agrees calls ⟨Function.update pool.procs c p', store'⟩ where
  going c' := by
    by_cases same : c' = c
    · subst same
      simpa only [Function.update_self] using own
    · simpa only [Function.update_of_ne same] using (agrees.going c').later rows held
  current := current
  pending := pending

/-- A step that leaves the store alone. -/
theorem Agrees.quiet {p' : SignerProgram K κ Unit} (agrees : Agrees calls pool) (own : Going calls c pool.state p')
    (still : ∀ which signer, pool.state.memory which = some signer → Rotates calls c which →
      Prepares (pool.procs c) signer.root → Prepares p' signer.root) :
    Agrees calls ⟨Function.update pool.procs c p', pool.state⟩ := by
  refine agrees.moved own (.refl _) (fun _ => id) agrees.current fun which signer there => ?_
  exact (agrees.pending which signer there).kept (fun _ => id) fun rotates prepares =>
    .inl (still which signer there rotates prepares)

/-- A step that changes the memory of one instance. -/
theorem Agrees.remembers {p' : SignerProgram K κ Unit} (agrees : Agrees calls pool) {which : κ}
    {memory : Option (Signer K)} (own : Going calls c pool.state p') (idle : ∀ root, ¬Prepares (pool.procs c) root)
    (pending : ∀ signer, memory = some signer →
      signer.root ∈ pool.state.persisted ∨ Rotates calls c which ∧ Prepares p' signer.root) :
    Agrees calls ⟨Function.update pool.procs c p',
      { pool.state with memory := Function.update pool.state.memory which memory }⟩ := by
  refine agrees.moved (own.later (.refl _) fun _ => id) (.refl _) (fun _ => id) agrees.current fun i signer there => ?_
  by_cases same : i = which
  · subst same
    have new : memory = some signer := by simpa only [Function.update_self] using there
    obtain held | ⟨rotates, prepares⟩ := pending signer new
    · exact .inl held
    · exact .inr ⟨c, rotates, by simpa only [Function.update_self] using prepares⟩
  · have before : pool.state.memory i = some signer := (Function.update_of_ne same ..).symm.trans there
    exact (agrees.pending i signer before).kept (fun _ => id) fun _ prepares => absurd prepares (idle _)

/-- A step that writes the variable. -/
theorem Agrees.writes {p' : SignerProgram K κ Unit} (agrees : Agrees calls pool) {items : Keys K}
    (own : Going calls c { pool.state with
      row := pool.state.row.write () items
      persisted := pool.state.persisted ++ [items.root] } p')
    (last : ∀ which root, Rotates calls c which → Prepares (pool.procs c) root → root = items.root) :
    Agrees calls ⟨Function.update pool.procs c p',
      { pool.state with
        row := pool.state.row.write () items
        persisted := pool.state.persisted ++ [items.root] }⟩ := by
  have held : ∀ root ∈ pool.state.persisted, root ∈ pool.state.persisted ++ [items.root] :=
    fun root there => List.mem_append_left _ there
  have latest : items.root ∈ pool.state.persisted ++ [items.root] := by simp
  refine agrees.moved own (.write _ _ _) held ?_ ?_
  · intro items' there
    have same : some items = some items' := (Versioned.read_write_self ..).symm.trans there
    cases same
    exact latest
  · intro which signer there
    refine (agrees.pending which signer there).kept held fun rotates prepares => .inr ?_
    rw [last which _ rotates prepares]
    exact latest

omit [DecidableEq κ] in
theorem Rotates.unique {which which' : κ} (rotates : Rotates calls c which) (rotates' : Rotates calls c which') :
    which = which' := by
  obtain ⟨_, _, _, _, call⟩ := rotates
  obtain ⟨_, _, _, _, call'⟩ := rotates'
  rw [call] at call'
  cases call'
  rfl

theorem step_call {phase : SignerPhase K} {request : SignerRequest K κ}
    {next : request.Answer → SignerProgram K κ Unit}
    (here : pool.procs c = .call phase request next) :
    step pool c = ⟨Function.update pool.procs c (next (SignerStore.handler request pool.state).1),
      (SignerStore.handler request pool.state).2⟩ := Pool.step_call here

/-- A step that does not write is faithful. -/
theorem faithful_quiet (same : (step pool c).state.row = pool.state.row) : Faithful pool c :=
  fun _ _ moved => absurd (congrArg (fun row => row.version ()) same) moved

theorem agrees_step (agrees : Agrees calls pool) (allowed : Allowed pool c) :
    Agrees calls (step pool c) ∧ Faithful pool c := by
  unfold Allowed at allowed
  have going := agrees.going c
  generalize here : pool.procs c = p at going
  cases going with
  | ended finished =>
    have stands : step pool c = pool := Pool.step_finished (by rw [here]; exact finished)
    refine ⟨by rw [stands]; exact agrees, faithful_quiet (by rw [stands])⟩
  | fresh =>
    cases call : calls c with
    | construct domain org now key tokenKey kid =>
      rw [call, construct_eq] at here
      have stepped := step_call here
      have idle : ∀ root, ¬Prepares (pool.procs c) root := by
        intro root
        rw [here]
        exact not_prepares_idle
      refine ⟨?_, faithful_quiet (by rw [stepped]; rfl)⟩
      rw [stepped]
      simp only [SignerStore.handler]
      cases there : pool.state.row.read () with
      | some items =>
        exact agrees.quiet (.storing _ (agrees.current items there)) fun _ _ _ _ prepares => absurd prepares (idle _)
      | none => exact agrees.quiet (.creating _) fun _ _ _ _ prepares => absurd prepares (idle _)
    | rotate which bundle overlap now key =>
      have rotates : Rotates calls c which := ⟨bundle, overlap, now, key, call⟩
      rw [call, rotate_eq] at here
      have stepped := step_call here
      have idle : ∀ root, ¬Prepares (pool.procs c) root := by
        intro root
        rw [here]
        exact not_prepares_idle
      refine ⟨?_, faithful_quiet (by rw [stepped]; rfl)⟩
      rw [stepped]
      simp only [SignerStore.handler]
      cases memory : pool.state.memory which with
      | none => exact agrees.remembers (.ended trivial) idle nofun
      | some signer =>
        refine agrees.remembers (.rotated rotates _) idle fun signer' new => .inr ⟨rotates, .inl ⟨_, rfl⟩⟩
  | storing signer held =>
    have stepped := step_call here
    have idle : ∀ root, ¬Prepares (pool.procs c) root := by
      intro root
      rw [here]
      exact not_prepares_idle
    refine ⟨?_, faithful_quiet (by rw [stepped]; rfl)⟩
    rw [stepped]
    refine agrees.remembers (.ended trivial) idle fun signer' new => .inl ?_
    cases new
    exact held
  | creating signer =>
    have stepped := step_call here
    refine ⟨?_, faithful_quiet (by rw [stepped]; rfl)⟩
    rw [stepped]
    rw [here] at allowed
    have nothing : pool.state.row.read () = none := Option.map_eq_none_iff.mp allowed
    refine agrees.quiet (.putting signer pool.state.row (.refl _) nothing) fun _ _ _ _ prepares => ?_
    rw [here] at prepares
    obtain ⟨old, label⟩ | label | ⟨old, _, _, label, -⟩ := prepares <;> cases label
  | putting signer base later nothing =>
    have stepped := step_call here
    have unprepared : ∀ root, ¬Prepares (pool.procs c) root := by
      intro root prepares
      rw [here] at prepares
      obtain ⟨old, label⟩ | label | ⟨old, _, _, label, -⟩ := prepares <;> cases label
    by_cases same : base.version () = pool.state.row.version ()
    · have still : pool.state.row.read () = none := by
        rw [Versioned.read, later.row_of_version same.symm]
        exact nothing
      refine ⟨?_, fun items there => by rw [still] at there; cases there⟩
      rw [stepped]
      simp only [SignerStore.handler, if_pos same]
      exact agrees.writes (.storing signer (List.mem_append_right _ (List.mem_singleton.mpr rfl)))
        fun which root _ prepares => absurd prepares (unprepared root)
    · refine ⟨?_, faithful_quiet (by rw [stepped]; simp only [SignerStore.handler, if_neg same])⟩
      rw [stepped]
      simp only [SignerStore.handler, if_neg same]
      exact agrees.quiet (.ended trivial) fun _ _ _ _ prepares => absurd prepares (unprepared _)
  | @rotated which rotates old =>
    have stepped := step_call here
    refine ⟨?_, faithful_quiet (by rw [stepped]; rfl)⟩
    rw [stepped]
    rw [here] at allowed
    exact agrees.quiet (.recalling rotates old pool.state.row (.refl _) allowed) fun _ _ _ _ _ => .inr (.inl rfl)
  | @recalling which rotates old base later was =>
    have stepped := step_call here
    refine ⟨?_, faithful_quiet (by rw [stepped]; rfl)⟩
    rw [stepped]
    simp only [SignerStore.handler, id, Function.update_eq_self]
    cases memory : pool.state.memory which with
    | none =>
      refine agrees.quiet (.ended trivial) fun which' signer there rotates' _ => ?_
      rw [← rotates.unique rotates', memory] at there
      cases there
    | some me =>
      refine agrees.quiet (.replacing rotates old me.keys base later was) fun which' signer there rotates' _ => ?_
      rw [← rotates.unique rotates', memory] at there
      cases there
      exact .inr (.inr ⟨old, me.keys, _, rfl, rfl, rfl⟩)
  | @replacing which rotates old items base later was =>
    have stepped := step_call here
    rw [here] at allowed
    have same : base.version () = pool.state.row.version () := allowed
    refine ⟨?_, fun items' there _ => ?_⟩
    · rw [stepped]
      simp only [SignerStore.handler, if_pos same]
      refine agrees.writes (.ended trivial) fun which' root _ prepares => ?_
      rw [here] at prepares
      obtain ⟨old', label⟩ | label | ⟨old', items', cas, -, request, root_eq⟩ := prepares
      · cases label
      · cases label
      · cases request
        exact root_eq.symm
    · have before : base.read () = some items' := by
        rw [Versioned.read, ← later.row_of_version same.symm]
        exact there
      rw [before] at was
      cases was
      rw [here]
      rfl

/-! ## Runs -/

/-- No root is replaced but by a rotation from it, and no instance that stands holds another root
than one that was persisted, in every run in which `_persist` finds what its call started from. -/
theorem cold_start_and_rotation_agree (calls : κ → SignerCall K κ) (row : Versioned Unit fun _ => Keys K)
    (schedule : List κ) (along : Along step Allowed schedule (begun calls row)) :
    Along step Faithful schedule (begun calls row) ∧ Anchored calls (schedule.foldl step (begun calls row)) := by
  obtain ⟨faithful, final⟩ :=
    along.shows (fun _ _ allowed agrees => agrees_step agrees allowed) (agrees_begun calls row)
  exact ⟨faithful, final.anchored⟩

/-- Two signers start on an empty store, and the first one is rotated. -/
def twoSigners : Fin 3 → SignerCall Nat (Fin 3)
  | 0 => .construct "acme" "customer" 0 10 11 "aaaa"
  | 1 => .construct "acme" "customer" 0 20 21 "bbbb"
  | 2 => .rotate 0 .empty 604800 5 30

def emptyVariable : Versioned Unit fun _ => Keys Nat := .empty 1000

/-- One after the other. -/
theorem agree_one_after_another :
    Along step Faithful [0, 0, 0, 0, 1, 1, 2, 2, 2, 2] (begun twoSigners emptyVariable) ∧
      Anchored twoSigners ([0, 0, 0, 0, 1, 1, 2, 2, 2, 2].foldl step (begun twoSigners emptyVariable)) :=
  cold_start_and_rotation_agree twoSigners emptyVariable _ (by decide +kernel)

/-- Both read the empty variable before either writes it: the second replaces the first one's root,
and both have returned. -/
theorem cold_starts_disagree :
    let final := [0, 1, 0, 0, 0, 1, 1, 1].foldl step (begun twoSigners emptyVariable)
    ¬Along step Faithful [0, 1, 0, 0, 0, 1, 1, 1] (begun twoSigners emptyVariable) ∧
      (final.state.memory 0).map (fun signer => signer.root.key) = some 10 ∧
      (final.state.memory 1).map (fun signer => signer.root.key) = some 20 ∧
      (final.state.row.read ()).map Keys.caKey = some 20 := by
  decide +kernel

end EdgeVms.Verified.ColdStart
