import EdgeVms.Verified.Platform.Commits

/-! # A name is a slot

Any number of calls of `claim_slot`, `renew_slot` and `release_slot`, request by
request, each by a worker with any memory.  The calls of one instance follow one
another; here they may even overlap.  What a commit makes of the record it
replaces (`SlotOp.Makes`) is all that the properties need: they are facts about
the log.
-/

namespace EdgeVms.Verified

open Process Python Platform

variable {ι M : Type}

inductive SlotOp where
  | claim (prefer : Option String)
  | renew
  | release
  deriving DecidableEq

def SlotOp.IsClaim : SlotOp → Prop
  | claim _ => True
  | _ => False

/-- A call, with the memory of the worker that makes it. -/
structure SlotCall where
  me : Worker
  op : SlotOp

def SlotCall.program (sub : Subsystem) (call : SlotCall) : Program M (Bool × Worker) :=
  match call.op with
  | .claim prefer => do return (true, ← Worker.claimSlot sub call.me prefer)
  | .renew => Worker.renewSlot sub call.me
  | .release => do return (true, ← Worker.releaseSlot sub call.me)

/-- The record that a call of `me` writes over `cur` in the slot `name`. -/
inductive SlotOp.Makes (me : Worker) (name : String) (cur : Slot) : SlotOp → Slot → Prop
  | claim {prefer : Option String} {now : ℚ} (free : prefer = none → cur.claimable now = true)
      (wanted : ∀ preferred, prefer = some preferred → name = preferred) :
      Makes me name cur (.claim prefer) ⟨name, me.instance_, .finite (now + me.slotTtl), false, cur.gen + 1⟩
  | renew {now : ℚ} (held : cur.holder = me.instance_) :
      Makes me name cur .renew ⟨name, me.instance_, .finite (now + me.slotTtl), false, cur.gen⟩
  | release {now : ℚ} (held : cur.holder = me.instance_) :
      Makes me name cur .release ⟨name, me.instance_, .finite now, true, cur.gen⟩

/-- A commit is the write of its call, over the record `cur` of the slot `name`. -/
structure Records (sub : Subsystem) (calls : ι → SlotCall) (commit : Commit ι) (name : String) (cur new : Slot) :
    Prop where
  key : commit.key = sub.slotKey name
  replaced : Slot.fromItems name (rowValues commit.before) = .ok cur
  wrote : commit.new = new.toItems
  makes : (calls commit.client).op.Makes (calls commit.client).me name cur new

/-! ## The record that stands -/

/-- The record of a slot, as it is read. -/
def slotAt (sub : Subsystem) (map : Key → Option Items) (name : String) : Except Error Slot :=
  Slot.fromItems name (rowValues (map (sub.slotKey name)))

theorem fromItems_toItems (name : String) (slot : Slot) :
    Slot.fromItems name (rowValues (some (stored slot.toItems))) = .ok { slot with name := name } := by
  obtain ⟨slotName, holder, until_, released, gen⟩ := slot
  cases released <;>
    simp [Slot.fromItems, rowValues, stored, Slot.toItems, Dict.mapValues, Dict.getD, Dict.get?_cons,
      Value.text, Value.repr, Value.toFloat, Value.toInt, Value.equals, Text.toInt, bind, Except.bind, pure,
        Except.pure,
      Text.string]

theorem slotKey_inj {sub : Subsystem} {name name' : String} (same : sub.slotKey name = sub.slotKey name') :
    name = name' := by
  simpa [Subsystem.slotKey] using same

/-- A commit writes the record `new` over the record `cur` of the slot `name`. -/
structure Rewrites (sub : Subsystem) (commit : Commit ι) (name : String) (cur new : Slot) : Prop where
  key : commit.key = sub.slotKey name
  replaced : Slot.fromItems name (rowValues commit.before) = .ok cur
  wrote : commit.new = new.toItems
  named : new.name = name

namespace Rewrites

variable {sub : Subsystem} {map : Key → Option Items} {commit : Commit ι} {name name' : String} {cur new : Slot}

theorem slotAt_apply (rewrites : Rewrites sub commit name cur new) : slotAt sub (commit.apply map) name = .ok new := by
  rw [slotAt, Commit.apply, rewrites.key, Function.update_self, rewrites.wrote, fromItems_toItems]
  have named := rewrites.named
  subst named
  rfl

theorem slotAt_other (rewrites : Rewrites sub commit name cur new) (other : name' ≠ name) :
    slotAt sub (commit.apply map) name' = slotAt sub map name' := by
  have keys : sub.slotKey name' ≠ commit.key := by
    rw [rewrites.key]
    exact fun same => other (slotKey_inj same)
  rw [slotAt, Commit.apply, Function.update_of_ne keys, slotAt]

theorem slotAt_before (rewrites : Rewrites sub commit name cur new) (before : commit.before = map commit.key) :
    slotAt sub map name = .ok cur := by
  rw [slotAt, ← rewrites.key, ← before]
  exact rewrites.replaced

/-- What every write keeps of the record of a slot holds from write to write, until a write of the
`exception`al kind. -/
theorem until_of_chained {writes : Commit ι → String → Slot → Slot → Prop} {keeps : Slot → Prop}
    {exception : Commit ι → Prop}
    {log : List (Commit ι)} {slot : Slot}
    (rewrites : ∀ commit name cur new, writes commit name cur new → Rewrites sub commit name cur new)
    (step : ∀ commit cur new, writes commit name cur new → keeps cur → exception commit ∨ keeps new)
    (chained : Chained map log) (recorded : ∀ commit ∈ log, ∃ name cur new, writes commit name cur new)
    (here : slotAt sub map name = .ok slot) (holds : keeps slot) :
    (∃ commit ∈ log, exception commit) ∨
      ∃ last, slotAt sub (log.foldl Commit.apply map) name = .ok last ∧ keeps last := by
  induction log generalizing map slot with
  | nil => exact .inr ⟨slot, here, holds⟩
  | cons commit rest ih =>
    obtain ⟨name', cur, new, written⟩ := recorded commit List.mem_cons_self
    have rewritten := rewrites commit name' cur new written
    have recorded' : ∀ c ∈ rest, ∃ name cur new, writes c name cur new :=
      fun c member => recorded c (List.mem_cons_of_mem _ member)
    have later : ∀ slot, slotAt sub (commit.apply map) name = .ok slot → keeps slot →
        (∃ c ∈ commit :: rest, exception c) ∨
          ∃ last, slotAt sub ((commit :: rest).foldl Commit.apply map) name = .ok last ∧ keeps last := by
      intro slot here holds
      obtain ⟨c, member, found⟩ | ends := ih chained.2 recorded' here holds
      · exact .inl ⟨c, List.mem_cons_of_mem _ member, found⟩
      · exact .inr ends
    by_cases same : name = name'
    · subst same
      have cur_eq : cur = slot := Except.ok.inj ((rewritten.slotAt_before chained.1).symm.trans here)
      subst cur_eq
      obtain found | holds' := step commit cur new written holds
      · exact .inl ⟨commit, List.mem_cons_self, found⟩
      · exact later new rewritten.slotAt_apply holds'
    · exact later slot (by rwa [rewritten.slotAt_other same]) holds

end Rewrites

section Log

variable {sub : Subsystem} {calls : ι → SlotCall} {map : Key → Option Items} {log : List (Commit ι)}
  {commit : Commit ι} {name name' instance_ : String} {cur new slot : Slot}

theorem SlotOp.Makes.named {me : Worker} {op : SlotOp} (makes : op.Makes me name cur new) : new.name = name := by
  cases makes <;> rfl

theorem SlotOp.Makes.holder {me : Worker} {op : SlotOp} (makes : op.Makes me name cur new) :
    new.holder = me.instance_ := by
  cases makes <;> rfl

theorem SlotOp.Makes.gen_le {me : Worker} {op : SlotOp} (makes : op.Makes me name cur new) : cur.gen ≤ new.gen := by
  cases makes with
  | claim free wanted =>
    show cur.gen ≤ cur.gen + 1
    omega
  | renew held | release held => exact le_refl _

theorem SlotOp.Makes.claims_or_held {me : Worker} {op : SlotOp} (makes : op.Makes me name cur new) :
    op.IsClaim ∨ cur.holder = me.instance_ := by
  cases makes with
  | claim free wanted => exact .inl trivial
  | renew held | release held => exact .inr held

theorem Records.rewrites (records : Records sub calls commit name cur new) : Rewrites sub commit name cur new :=
  ⟨records.key, records.replaced, records.wrote, records.makes.named⟩

theorem Records.slotAt_apply (records : Records sub calls commit name cur new) :
    slotAt sub (commit.apply map) name = .ok new := records.rewrites.slotAt_apply

theorem Records.slotAt_before (records : Records sub calls commit name cur new)
    (before : commit.before = map commit.key) : slotAt sub map name = .ok cur := records.rewrites.slotAt_before before

/-- Every commit of the log is the write of its call. -/
def Recorded (sub : Subsystem) (calls : ι → SlotCall) (log : List (Commit ι)) : Prop :=
  ∀ commit ∈ log, ∃ name cur new, Records sub calls commit name cur new

theorem Recorded.append {log' : List (Commit ι)} :
    Recorded sub calls (log ++ log') ↔ Recorded sub calls log ∧ Recorded sub calls log' := List.forall_mem_append

/-- The generation of a slot never falls. -/
theorem gen_le_of_chained (chained : Chained map log) (recorded : Recorded sub calls log)
    (here : slotAt sub map name = .ok slot) :
    ∃ last, slotAt sub (log.foldl Commit.apply map) name = .ok last ∧ slot.gen ≤ last.gen := by
  have step : ∀ commit cur new, Records sub calls commit name cur new → slot.gen ≤ cur.gen →
      False ∨ slot.gen ≤ new.gen :=
    fun commit cur new records grown => .inr (grown.trans records.makes.gen_le)
  obtain ⟨commit, -, never⟩ | ends :=
    Rewrites.until_of_chained (fun _ _ _ _ records => Records.rewrites records) step chained recorded here (le_refl slot.gen)
  · exact never.elim
  · exact ends

/-- A slot that is not an instance's stays so until that instance claims it. -/
theorem holder_ne_of_chained (chained : Chained map log) (recorded : Recorded sub calls log)
    (here : slotAt sub map name = .ok slot) (other : slot.holder ≠ instance_) :
    (∃ commit ∈ log, commit.key = sub.slotKey name ∧ (calls commit.client).op.IsClaim ∧
        (calls commit.client).me.instance_ = instance_) ∨
      ∃ last, slotAt sub (log.foldl Commit.apply map) name = .ok last ∧ last.holder ≠ instance_ := by
  apply Rewrites.until_of_chained (fun _ _ _ _ records => Records.rewrites records) _ chained recorded here other
  intro commit cur new records other
  by_cases own : (calls commit.client).me.instance_ = instance_
  · obtain claims | held := records.makes.claims_or_held
    · exact .inl ⟨records.key, claims, own⟩
    · exact absurd (held.trans own) other
  · right
    rw [records.makes.holder]
    exact own

/-- A claim by another instance takes the slot from `instance_`. -/
def Takes (sub : Subsystem) (calls : ι → SlotCall) (name instance_ : String) (commit : Commit ι) : Prop :=
  ∃ cur new, Records sub calls commit name cur new ∧ (calls commit.client).op.IsClaim ∧
    cur.holder = instance_ ∧ (calls commit.client).me.instance_ ≠ instance_

/-- A slot stays an instance's until another instance takes it. -/
theorem holder_of_chained (chained : Chained map log) (recorded : Recorded sub calls log)
    (here : slotAt sub map name = .ok slot) (held : slot.holder = instance_) :
    (∃ commit ∈ log, Takes sub calls name instance_ commit) ∨
      ∃ last, slotAt sub (log.foldl Commit.apply map) name = .ok last ∧ last.holder = instance_ := by
  apply Rewrites.until_of_chained (fun _ _ _ _ records => Records.rewrites records) _ chained recorded here held
  intro commit cur new records held
  by_cases own : (calls commit.client).me.instance_ = instance_
  · right
    rw [records.makes.holder]
    exact own
  · obtain claims | kept := records.makes.claims_or_held
    · exact .inl ⟨cur, new, records, claims, held, own⟩
    · exact absurd (kept.symm.trans held) own

/-! ## The three properties, of a log -/

/-- Each claim gives the slot a generation above all earlier ones. -/
def GenerationsGrow (sub : Subsystem) (calls : ι → SlotCall) (log : List (Commit ι)) : Prop :=
  ∀ before commit after, log = before ++ commit :: after → (calls commit.client).op.IsClaim →
    ∃ name cur new, Records sub calls commit name cur new ∧ cur.gen < new.gen ∧
      ∀ earlier ∈ before, earlier.key = commit.key →
        ∃ cur' new', Records sub calls earlier name cur' new' ∧ new'.gen < new.gen

/-- After another instance's claim of a slot, an instance writes its record only by claiming it again. -/
def TakenForGood (calls : ι → SlotCall) (log : List (Commit ι)) : Prop :=
  ∀ before claim between commit after, log = before ++ claim :: (between ++ commit :: after) →
    claim.key = commit.key → (calls claim.client).op.IsClaim → ¬ (calls commit.client).op.IsClaim →
    (calls claim.client).me.instance_ ≠ (calls commit.client).me.instance_ →
      ∃ again ∈ between, again.key = commit.key ∧ (calls again.client).op.IsClaim ∧
        (calls again.client).me.instance_ = (calls commit.client).me.instance_

/-- Of two claims of a slot without a preferred name by different instances, the second comes after a
claim that took the slot from the first one's instance: because a name was preferred, or when the record
was released, or when it had lapsed on the clock of that claim. -/
def SharedOnlyIfTaken (sub : Subsystem) (calls : ι → SlotCall) (log : List (Commit ι)) : Prop :=
  ∀ before first between second after, log = before ++ first :: (between ++ second :: after) →
    first.key = second.key → (calls first.client).op = .claim none → (calls second.client).op = .claim none →
    (calls first.client).me.instance_ ≠ (calls second.client).me.instance_ →
      ∃ taker ∈ between ++ [second], ∃ name cur new, Records sub calls taker name cur new ∧
        taker.key = first.key ∧ cur.holder = (calls first.client).me.instance_ ∧
        ((∃ preferred, (calls taker.client).op = .claim (some preferred)) ∨
          cur.released = true ∨
          ∃ now, new.until_ = .finite (now + (calls taker.client).me.slotTtl) ∧ cur.lapsed now = true)

theorem Records.same_name {commit' : Commit ι} {cur' new' : Slot} (records : Records sub calls commit name cur new)
    (records' : Records sub calls commit' name' cur' new') (same : commit.key = commit'.key) : name = name' :=
  slotKey_inj (records.key.symm.trans (same.trans records'.key))

theorem generationsGrow (chained : Chained map log) (recorded : Recorded sub calls log) :
    GenerationsGrow sub calls log := by
  rintro before commit after rfl claims
  obtain ⟨chained_before, at_commit, -⟩ := chained_append.mp chained
  obtain ⟨recorded_before, recorded_after⟩ := Recorded.append.mp recorded
  obtain ⟨name, cur, new, records⟩ := recorded_after commit List.mem_cons_self
  have up : cur.gen < new.gen := by
    have makes := records.makes
    cases op : (calls commit.client).op with
    | claim prefer =>
      rw [op] at makes
      cases makes
      show cur.gen < cur.gen + 1
      omega
    | renew | release => rw [op] at claims; exact claims.elim
  refine ⟨name, cur, new, records, up, fun earlier member same => ?_⟩
  obtain ⟨first, rest, rfl⟩ := List.append_of_mem member
  obtain ⟨-, at_earlier, chained_rest⟩ := chained_append.mp chained_before
  obtain ⟨-, recorded_rest⟩ := Recorded.append.mp recorded_before
  obtain ⟨name', cur', new', records'⟩ := recorded_rest earlier List.mem_cons_self
  have names := records'.same_name records same
  subst names
  -- from the earlier write on the generation only grows
  obtain ⟨last, there, grows⟩ := gen_le_of_chained chained_rest
    (fun c later => recorded_rest c (List.mem_cons_of_mem _ later)) records'.slotAt_apply
  rw [List.foldl_append, List.foldl_cons] at at_commit
  have cur_eq : cur = last := Except.ok.inj ((records.slotAt_before at_commit).symm.trans there)
  subst cur_eq
  exact ⟨cur', new', records', lt_of_le_of_lt grows up⟩

theorem takenForGood (chained : Chained map log) (recorded : Recorded sub calls log) :
    TakenForGood calls log := by
  rintro before claim between commit after rfl same claims keeps other
  obtain ⟨-, -, chained_after⟩ := chained_append.mp chained
  obtain ⟨chained_between, at_commit, -⟩ := chained_append.mp chained_after
  obtain ⟨-, recorded_after⟩ := Recorded.append.mp recorded
  obtain ⟨name, cur, new, records⟩ := recorded_after claim List.mem_cons_self
  obtain ⟨recorded_between, recorded_rest⟩ :=
    Recorded.append.mp fun c member => recorded_after c (List.mem_cons_of_mem _ member)
  obtain ⟨name', cur', new', records'⟩ := recorded_rest commit List.mem_cons_self
  have names := records.same_name records' same
  subst names
  have taken : new.holder ≠ (calls commit.client).me.instance_ := by
    rw [records.makes.holder]
    exact other
  obtain ⟨again, member, key, claims', own⟩ | ⟨last, there, lost⟩ :=
    holder_ne_of_chained chained_between recorded_between records.slotAt_apply taken
  · exact ⟨again, member, key.trans records'.key.symm, claims', own⟩
  · -- a renewal or a release writes over a record of its own
    have cur_eq : cur' = last := Except.ok.inj ((records'.slotAt_before at_commit).symm.trans there)
    subst cur_eq
    obtain claims' | held := records'.makes.claims_or_held
    · exact absurd claims' keeps
    · exact absurd held lost

/-- A claim takes a held slot because its name was preferred, or the record was released or lapsed. -/
theorem SlotOp.Makes.takes {me : Worker} {prefer : Option String}
    (makes : SlotOp.Makes me name cur (.claim prefer) new) (held : cur.holder ≠ "") :
    (∃ preferred, SlotOp.claim prefer = .claim (some preferred)) ∨ cur.released = true ∨
      ∃ now, new.until_ = .finite (now + me.slotTtl) ∧ cur.lapsed now = true := by
  cases makes with
  | @claim _ now free wanted =>
    cases prefer with
    | some preferred => exact .inl ⟨preferred, rfl⟩
    | none =>
      right
      have claimable := free rfl
      simp only [Slot.claimable, Bool.or_eq_true, decide_eq_true_eq, held, or_false] at claimable
      by_cases released : cur.released = true
      · exact .inl released
      · have past : cur.until_.lt (.finite now) = true := claimable.resolve_left released
        exact .inr ⟨now, rfl, by simp [Slot.lapsed, released, held, past]⟩

theorem sharedOnlyIfTaken (named : ∀ i, (calls i).me.instance_ ≠ "") (chained : Chained map log)
    (recorded : Recorded sub calls log) : SharedOnlyIfTaken sub calls log := by
  rintro before first between second after rfl same unpreferred unpreferred' other
  obtain ⟨-, -, chained_after⟩ := chained_append.mp chained
  obtain ⟨chained_between, at_second, -⟩ := chained_append.mp chained_after
  obtain ⟨-, recorded_after⟩ := Recorded.append.mp recorded
  obtain ⟨name, cur, new, records⟩ := recorded_after first List.mem_cons_self
  obtain ⟨recorded_between, recorded_rest⟩ :=
    Recorded.append.mp fun c member => recorded_after c (List.mem_cons_of_mem _ member)
  obtain ⟨name', cur', new', records'⟩ := recorded_rest second List.mem_cons_self
  have names := records.same_name records' same
  subst names
  -- the claim that takes the slot from the first one: between the two, or the second itself
  have taken : ∃ taker ∈ between ++ [second],
      Takes sub calls name (calls first.client).me.instance_ taker := by
    obtain ⟨taker, member, takes⟩ | ⟨last, there, held⟩ :=
      holder_of_chained chained_between recorded_between records.slotAt_apply records.makes.holder
    · exact ⟨taker, List.mem_append_left _ member, takes⟩
    · have cur_eq : cur' = last := Except.ok.inj ((records'.slotAt_before at_second).symm.trans there)
      subst cur_eq
      have claims : (calls second.client).op.IsClaim := by
        rw [unpreferred']
        trivial
      exact ⟨second, by simp, cur', new', records', claims, held, other.symm⟩
  obtain ⟨taker, member, cur, new, taking, claims, held, -⟩ := taken
  refine ⟨taker, member, name, cur, new, taking, taking.key.trans records.key.symm, held, ?_⟩
  have makes := taking.makes
  cases op : (calls taker.client).op with
  | claim prefer =>
    rw [op] at makes
    apply makes.takes
    rw [held]
    exact named _
  | renew | release => rw [op] at claims; exact claims.elim

end Log

/-! ## The programs -/

/-- What call `i` may do in one step: nothing to the rows, or its write. -/
def SlotStep (sub : Subsystem) (calls : ι → SlotCall) (i : ι) (state state' : Logged ι M) : Prop :=
  (state'.rows = state.rows ∧ state'.log = state.log) ∨
    ∃ commit name cur new, commit.client = i ∧ Records sub calls commit name cur new ∧
      state'.rows = state.rows.write commit.key (stored commit.new) ∧ state'.log = state.log ++ [commit]

/-- What a call sees of the others. -/
structure Follows (state state' : Logged ι M) : Prop where
  rows : state.rows.Later state'.rows
  log : state.log <+: state'.log

theorem Follows.refl (state : Logged ι M) : Follows state state := ⟨.refl _, List.prefix_rfl⟩

theorem Follows.trans {state state' state'' : Logged ι M} (first : Follows state state')
    (second : Follows state' state'') : Follows state state'' :=
  ⟨first.rows.trans second.rows, first.log.trans second.log⟩

theorem SlotStep.follows {sub : Subsystem} {calls : ι → SlotCall} {i : ι} {state state' : Logged ι M}
    (step : SlotStep sub calls i state state') : Follows state state' := by
  obtain ⟨rows, log⟩ | ⟨commit, name, cur, new, -, -, rows, log⟩ := step
  · exact ⟨by rw [rows]; exact .refl _, by simp only [log, List.prefix_rfl]⟩
  · exact ⟨by rw [rows]; exact .write _ _ _, by rw [log]; exact List.prefix_append _ _⟩

/-- Call `i` wrote the record of the slot. -/
def Wrote (sub : Subsystem) (i : ι) (name : String) (log : List (Commit ι)) : Prop :=
  ∃ commit ∈ log, commit.client = i ∧ commit.key = sub.slotKey name

/-- A claim that succeeds wrote the record of the slot it returns. -/
def Claimed (sub : Subsystem) (i : ι) (log : List (Commit ι)) (me : Worker) : Prop :=
  ∃ name, me.name = some name ∧ Wrote sub i name log

/-- What a call that returned `True`, or a name, may say: it wrote the record. -/
def Answers (sub : Subsystem) (call : SlotCall) (i : ι) (result : Bool × Worker) (state : Logged ι M) : Prop :=
  match call.op with
  | .claim _ => Claimed sub i state.log result.2
  | .renew => result.1 = true → call.me.slot ≠ none → Wrote sub i call.me.named state.log
  | .release => True

theorem Answers.mono {sub : Subsystem} {call : SlotCall} {i : ι} {result : Bool × Worker}
    {state state' : Logged ι M}
    (answers : Answers sub call i result state) (later : state.log <+: state'.log) :
    Answers sub call i result state' := by
  have wrote : ∀ name, Wrote sub i name state.log → Wrote sub i name state'.log := by
    rintro name ⟨commit, member, own⟩
    exact ⟨commit, later.subset member, own⟩
  unfold Answers at *
  split at answers
  · obtain ⟨name, is, there⟩ := answers
    exact ⟨name, is, wrote name there⟩
  · exact fun renewed somebody => wrote _ (answers renewed somebody)
  · trivial

theorem slotStep_tick {sub : Subsystem} {calls : ι → SlotCall} {i : ι} (state : Logged ι M) :
    SlotStep sub calls i state state.tick := .inl ⟨rfl, rfl⟩

section Programs

variable [DecidableEq ι] {view : ι → View} {sub : Subsystem} {calls : ι → SlotCall} {i : ι}
  {state : Logged ι M}

/-- A check-and-set over the record that was read. -/
theorem slot_tryPut {α : Type} {name : String} {read : Logged ι M} {cur new : Slot} {result : Nat → α}
    {handle : Exn → Program M α} {post : α → Logged ι M → Prop}
    (found : Slot.fromItems name (rowValues (read.rows.read (sub.slotKey name))) = .ok cur)
    (since : Follows read state) (makes : (calls i).op.Makes (calls i).me name cur new)
    (wins : ∀ state' index, Wrote sub i name state'.log → post (result index) state')
    (loses : ∀ state' error, Guarded view i Follows (SlotStep sub calls i) post (handle error) state') :
    Guarded view i Follows (SlotStep sub calls i) post
      (tryCatch (do
        let index ← Program.put (sub.slotKey name) new.toItems (some (read.rows.version (sub.slotKey name)))
        return result index) handle) state := by
  apply Guarded.tryPut slotStep_tick
  · intro now index moved allowed
    have same : now.rows.read (sub.slotKey name) = read.rows.read (sub.slotKey name) :=
      (since.trans moved).rows.read_of_matches allowed
    have records : Records sub calls ⟨i, sub.slotKey name, now.rows.read (sub.slotKey name), new.toItems⟩
        name cur new := ⟨rfl, by rw [same]; exact found, rfl, makes⟩
    refine ⟨.inr ⟨_, name, cur, new, rfl, records, rfl, rfl⟩, wins _ index ?_⟩
    exact ⟨_, List.mem_append_right _ List.mem_cons_self, rfl, rfl⟩
  · exact fun now error _ => loses _ error

theorem renewSlot_records (renews : (calls i).op = .renew) (state : Logged ι M) :
    Guarded view i Follows (SlotStep sub calls i)
      (fun result state => result.1 = true → (calls i).me.slot ≠ none → Wrote sub i (calls i).me.named state.log)
      (Worker.renewSlot sub (calls i).me) state := by
  unfold Worker.renewSlot
  by_cases nobody : (calls i).me.slot.isNone
  · rw [if_pos nobody]
    intro _ somebody
    exact absurd (by simpa using nobody) somebody
  · rw [if_neg nobody]
    apply Guarded.get slotStep_tick
    intro read moved
    apply Guarded.value_bind
    intro cur found
    split
    · intro renewed
      cases renewed
    next held =>
      rw [ne_eq, not_not] at held
      apply Safe.within
      apply Guarded.wall slotStep_tick
      intro now moved'
      have since : Follows read now.tick := ⟨moved'.rows, moved'.log⟩
      dsimp only
      apply slot_tryPut found since
      · rw [renews]
        exact .renew held
      · exact fun state' _ wrote _ _ => wrote
      · intro state' error
        cases error with
        | conflict package message =>
          cases package with
          | vmsplatform => exact fun renewed => by cases renewed
          | cluster => trivial
        | python error => trivial
        | forbidden package message => trivial
        | refused message => trivial

theorem releaseSlot_records (releases : (calls i).op = .release) (state : Logged ι M) :
    Guarded view i Follows (SlotStep sub calls i) (fun _ _ => True)
      (Worker.releaseSlot sub (calls i).me) state := by
  unfold Worker.releaseSlot
  split
  · trivial
  · apply Guarded.get slotStep_tick
    intro read moved
    apply Guarded.value_bind
    intro cur found
    apply Guarded.cut (fun _ _ => True)
    · split
      next held =>
        unfold Worker.letGo
        apply Guarded.wall slotStep_tick
        intro now moved'
        have since : Follows read now.tick := ⟨moved'.rows, moved'.log⟩
        dsimp only
        apply slot_tryPut found since
        · rw [releases]
          exact .release held
        · exact fun _ _ _ => trivial
        · intro state' error
          cases error with
          | conflict package message => cases package <;> trivial
          | python error | forbidden package message | refused message => trivial
      next => trivial
    · exact fun _ _ _ => trivial

theorem knownRounds_readsOnly (names : List String) (known : Dict Slot) :
    ReadsOnly (Worker.knownRounds sub names known : Program M _) := by
  induction names generalizing known with
  | nil => trivial
  | cons name rest ih => exact .bind (.get _) fun _ => .bind (.value _) fun _ => ih _

theorem claimAmong_records {prefer : Option String} (claims : (calls i).op = .claim prefer) (now : ℚ)
    (order : List String) (wanted : ∀ preferred, prefer = some preferred → ∀ cand ∈ order, cand = preferred)
    (state : Logged ι M) :
    Guarded view i Follows (SlotStep sub calls i)
      (fun result state => ∀ me, result = some me → Claimed sub i state.log me)
      (Worker.claimAmong sub (calls i).me prefer now order) state := by
  induction order generalizing state with
  | nil => exact fun _ none => by cases none
  | cons cand rest ih =>
    have wanted' : ∀ preferred, prefer = some preferred → ∀ cand ∈ rest, cand = preferred :=
      fun preferred same cand member => wanted preferred same cand (List.mem_cons_of_mem _ member)
    apply Guarded.get slotStep_tick
    intro read moved
    apply Guarded.value_bind
    intro cur found
    split
    · exact ih wanted' _
    next free =>
      have claimable : prefer = none → cur.claimable now = true := by
        rintro rfl
        simpa using free
      apply Guarded.cut (fun result state => ∀ me, result = some me → Claimed sub i state.log me)
      · have since : Follows read read.tick := ⟨.refl _, List.prefix_rfl⟩
        unfold Worker.take
        dsimp only
        apply slot_tryPut found since
        · rw [claims]
          exact .claim claimable fun preferred same => wanted preferred same cand List.mem_cons_self
        · rintro state' index wrote _ ⟨⟩
          exact ⟨cand, rfl, wrote⟩
        · intro state' error
          -- somebody took it in between: the next candidate
          cases error with
          | conflict package message =>
            cases package with
            | vmsplatform => exact fun _ none => by cases none
            | cluster => trivial
          | python error | forbidden package message | refused message => trivial
      · intro result state' taken
        cases result with
        | none => exact ih wanted' _
        | some me => exact fun me' same => taken me' same

theorem claimSlot_records {prefer : Option String} (claims : (calls i).op = .claim prefer) (state : Logged ι M) :
    Guarded view i Follows (SlotStep sub calls i) (fun me state => Claimed sub i state.log me)
      (Worker.claimSlot sub (calls i).me prefer) state := by
  have rounds : ∀ retries left now (state : Logged ι M),
      Guarded view i Follows (SlotStep sub calls i) (fun me state => Claimed sub i state.log me)
        (Worker.claimRounds sub (calls i).me prefer now retries left) state := by
    intro retries left now
    induction left with
    | zero => exact fun _ => trivial
    | succ left ih =>
      intro state
      apply Guarded.list slotStep_tick
      intro state' keys moved
      apply Guarded.bind (Guarded.readsOnly slotStep_tick (knownRounds_readsOnly _ _))
      intro known state' _
      apply Guarded.cut fun order _ => ∀ preferred, prefer = some preferred → ∀ cand ∈ order, cand = preferred
      · cases prefer with
        | some name =>
          rintro preferred ⟨⟩ cand member
          exact List.mem_singleton.mp member
        | none =>
          cases Worker.claimOrder none _ known now with
          | error error => trivial
          | ok order => exact fun preferred none => by cases none
      · intro order state' wanted
        apply Guarded.bind (claimAmong_records claims now order wanted state')
        intro result state' taken
        cases result with
        | none => exact ih _
        | some me => exact taken me rfl
  apply Guarded.wall slotStep_tick
  exact fun now moved => rounds 50 50 _ _

theorem program_records (i : ι) (state : Logged ι M) :
    Guarded view i Follows (SlotStep sub calls i) (Answers sub (calls i) i) ((calls i).program sub) state := by
  unfold SlotCall.program
  cases op : (calls i).op with
  | claim prefer =>
    apply Guarded.bind (claimSlot_records op state)
    intro me state' claimed
    show Answers sub (calls i) i (true, me) state'
    rw [Answers, op]
    exact claimed
  | renew =>
    apply Guarded.mono _ (renewSlot_records op state)
    intro result state' wrote
    rw [Answers, op]
    exact wrote
  | release =>
    apply Guarded.bind (releaseSlot_records op state)
    intro me state' _
    show Answers sub (calls i) i (true, me) state'
    rw [Answers, op]
    trivial

/-! ## Runs -/

/-- The calls and the store after a schedule. -/
def slotRun (sub : Subsystem) (view : ι → View) (calls : ι → SlotCall) (world : World ι M) (schedule : List ι) :
    Pool (interface M) Phase Exn (Bool × Worker) (Logged ι M) ι :=
  Pool.exec (logged view) schedule ⟨fun i => (calls i).program sub, ⟨world, []⟩⟩

theorem slotRun_records (sub : Subsystem) (view : ι → View) (calls : ι → SlotCall) (world : World ι M)
    (schedule : List ι) :
    Recorded sub calls (slotRun sub view calls world schedule).state.log ∧
      ∀ i result, (slotRun sub view calls world schedule).procs i = .ret result →
        Answers sub (calls i) i result (slotRun sub view calls world schedule).state := by
  have along : Along (Pool.step (logged view)) (fun _ _ => True) schedule
      ⟨fun i => (calls i).program sub, ⟨world, []⟩⟩ := .always (fun _ _ => trivial) _ _
  have runs := Pool.safe_exec_post (fun _ _ => Follows) (fun i => SlotStep sub calls i)
    (fun i => Yields (Answers sub (calls i) i)) (fun state => Recorded sub calls state.log)
    ?still ?transitive ?keeps ?compatible ?stable along (fun i => program_records i _) ?holds
  · refine ⟨runs.1, fun i result returned => ?_⟩
    have answers := runs.2 i
    rw [slotRun] at returned
    rw [returned] at answers
    exact answers
  case still => exact fun _ _ state _ => .refl state
  case transitive => exact fun _ _ _ _ _ first second => first.trans second
  case keeps =>
    intro pool i _ step recorded
    obtain ⟨-, log⟩ | ⟨commit, name, cur, new, -, records, -, log⟩ := step
    · rw [log]
      exact recorded
    · rw [log, Recorded.append]
      refine ⟨recorded, fun c member => ?_⟩
      rw [List.mem_singleton.mp member]
      exact ⟨name, cur, new, records⟩
  case compatible => exact fun _ _ _ _ _ _ _ step _ _ => step.follows
  case stable =>
    intro pool i j _ _ step result answers
    cases result with
    | error error => trivial
    | ok result => exact answers.mono step.follows.log
  case holds => exact fun _ member => nomatch member

end Programs

/-- After another instance's claim of its slot, a renewal that was not done before does not return `True`,
unless its instance claims the slot again. -/
def NeverRenewed (sub : Subsystem) (calls : ι → SlotCall)
    (final : Pool (interface M) Phase Exn (Bool × Worker) (Logged ι M) ι) : Prop :=
  ∀ i before claim after, final.state.log = before ++ claim :: after →
    (calls i).op = .renew → (calls i).me.slot ≠ none → claim.key = sub.slotKey (calls i).me.named →
    (calls claim.client).op.IsClaim → (calls claim.client).me.instance_ ≠ (calls i).me.instance_ →
    (∀ commit ∈ before, commit.client ≠ i) →
    (∀ again ∈ after, again.key = claim.key → (calls again.client).op.IsClaim →
      (calls again.client).me.instance_ ≠ (calls i).me.instance_) →
      ∀ me, final.procs i ≠ .ret (true, me)

theorem neverRenewed {sub : Subsystem} {calls : ι → SlotCall}
    {final : Pool (interface M) Phase Exn (Bool × Worker) (Logged ι M) ι}
    (answers : ∀ i result, final.procs i = .ret result → Answers sub (calls i) i result final.state)
    (taken : TakenForGood calls final.state.log) : NeverRenewed sub calls final := by
  intro i before claim after log renews somebody key claims other fresh unclaimed me returned
  have wrote := answers i (true, me) returned
  rw [Answers, renews] at wrote
  obtain ⟨commit, member, client, at_key⟩ := wrote rfl somebody
  have keeps : ¬ (calls commit.client).op.IsClaim := by
    rw [client, renews]
    exact id
  rw [log, List.mem_append, List.mem_cons] at member
  obtain earlier | rfl | later := member
  · exact fresh commit earlier client
  · exact keeps claims
  · obtain ⟨between, rest, rfl⟩ := List.append_of_mem later
    obtain ⟨again, between_member, same, claims', own⟩ :=
      taken before claim between commit rest log (key.trans at_key.symm) claims keeps (by rwa [client])
    have key' : again.key = claim.key := same.trans (at_key.trans key.symm)
    exact unclaimed again (List.mem_append_left _ between_member) key' claims' (by rw [own, client])

/-- The generation of a slot grows with each claim; whoever lost a slot to another instance neither renews
nor releases it until it claims it again; and two instances without a preferred name share a slot only if
it was taken from the first by preference, after a release, or after it lapsed. -/
theorem slot_identity [DecidableEq ι] (sub : Subsystem) (view : ι → View) (calls : ι → SlotCall)
    (world : World ι M) (schedule : List ι) (named : ∀ i, (calls i).me.instance_ ≠ "") :
    let final := slotRun sub view calls world schedule
    (∀ i result, final.procs i = .ret result → Answers sub (calls i) i result final.state) ∧
      GenerationsGrow sub calls final.state.log ∧ TakenForGood calls final.state.log ∧
      NeverRenewed sub calls final ∧ SharedOnlyIfTaken sub calls final.state.log := by
  intro final
  obtain ⟨recorded, answers⟩ := slotRun_records sub view calls world schedule
  have start : Explains world.vars.read (⟨world, []⟩ : Logged ι M) := ⟨trivial, rfl⟩
  have chained : Chained world.vars.read final.state.log := (explains_exec schedule start).chained
  have taken := takenForGood chained recorded
  exact ⟨answers, generationsGrow chained recorded, taken, neverRenewed answers taken,
    sharedOnlyIfTaken named chained recorded⟩

/-! ## A preferred name in between -/

/-- `a` claims any slot; `c` claims that slot by name, and lets it go; `b` claims any slot. -/
def preferredBetween : Fin 4 → SlotCall
  | 0 => ⟨.new "a", .claim none⟩
  | 1 => ⟨.new "c", .claim (some "w-1")⟩
  | 2 => ⟨{ Worker.new "c" with name := some "w-1", slot := some ⟨"w-1", "c", .finite 45, false, 2⟩ }, .release⟩
  | 3 => ⟨.new "b", .claim none⟩

/-- One call after the other. -/
def oneByOne : List (Fin 4) := [0, 1, 2, 3].flatMap (List.replicate 12)

def preferredRun (calls : Fin 4 → SlotCall) (schedule : List (Fin 4)) :
    Pool (interface Unit) Phase Exn (Bool × Worker) (Logged (Fin 4) Unit) (Fin 4) :=
  slotRun ⟨"vms"⟩ (fun _ => {}) calls (freshWorld (Fin 4)) schedule

/-- The call returned `True` with the name `w-1`, and a lease that has not lapsed at 0. -/
def holdsFirst (result : Bool × Worker) : Bool :=
  result.1 && result.2.name = some "w-1" && result.2.slot.all fun slot => !slot.lapsed 0

/-- On a clock that stands at 0, `a` and `b` hold the same slot, and neither lease lapsed or was released. -/
theorem slot_shared_unlapsed : ¬ ∀ (calls : Fin 4 → SlotCall) (schedule : List (Fin 4)) (i j : Fin 4)
    (me me' : Worker), (calls i).op = .claim none → (calls j).op = .claim none →
      (calls i).me.instance_ ≠ (calls j).me.instance_ →
      (preferredRun calls schedule).procs i = .ret (true, me) →
      (preferredRun calls schedule).procs j = .ret (true, me') → me.name = me'.name →
        (∃ k, (calls k).op = .release ∧ ((calls k).me.instance_ = (calls i).me.instance_ ∨
            (calls k).me.instance_ = (calls j).me.instance_)) ∨
          (∃ slot, me.slot = some slot ∧ slot.lapsed 0 = true) ∨
          ∃ slot, me'.slot = some slot ∧ slot.lapsed 0 = true := by
  intro claim
  have first : ((preferredRun preferredBetween oneByOne).procs 0).value?.any holdsFirst = true := by
    decide +kernel
  have second : ((preferredRun preferredBetween oneByOne).procs 3).value?.any holdsFirst = true := by
    decide +kernel
  obtain ⟨⟨returned, me⟩, at_first, holds⟩ := Proc.of_value? first
  obtain ⟨⟨returned', me'⟩, at_second, holds'⟩ := Proc.of_value? second
  simp only [holdsFirst, Bool.and_eq_true, decide_eq_true_eq] at holds holds'
  obtain ⟨⟨rfl, name⟩, unlapsed⟩ := holds
  obtain ⟨⟨rfl, name'⟩, unlapsed'⟩ := holds'
  have standing : ∀ lease : Option Slot, (lease.all fun slot => !slot.lapsed 0) = true →
      ¬ ∃ slot, lease = some slot ∧ slot.lapsed 0 = true := by
    rintro _ all ⟨slot, rfl, lapsed⟩
    simp [lapsed] at all
  obtain ⟨k, released, own⟩ | lapsed | lapsed := claim preferredBetween oneByOne 0 3 me me' rfl rfl
    (by decide) at_first at_second (name.trans name'.symm)
  · have others : ∀ k, (preferredBetween k).op = .release →
        (preferredBetween k).me.instance_ ≠ "a" ∧ (preferredBetween k).me.instance_ ≠ "b" := by decide
    exact own.elim (others k released).1 (others k released).2
  · exact standing _ unlapsed lapsed
  · exact standing _ unlapsed' lapsed

theorem slot_identity_preferred :
    (preferredRun preferredBetween oneByOne).state.log.length = 4 ∧
      GenerationsGrow ⟨"vms"⟩ preferredBetween (preferredRun preferredBetween oneByOne).state.log ∧
      SharedOnlyIfTaken ⟨"vms"⟩ preferredBetween (preferredRun preferredBetween oneByOne).state.log := by
  have length : (preferredRun preferredBetween oneByOne).state.log.length = 4 := by decide +kernel
  have named : ∀ i, (preferredBetween i).me.instance_ ≠ "" := by decide
  unfold preferredRun at length ⊢
  obtain ⟨-, grows, -, -, shared⟩ := @slot_identity (Fin 4) Unit _ ⟨"vms"⟩ (fun _ => {}) preferredBetween
    (freshWorld (Fin 4)) oneByOne named
  exact ⟨length, grows, shared⟩

end EdgeVms.Verified
