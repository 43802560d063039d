import EdgeVms.Cluster.FakeVariables
import EdgeVms.Process.Run

/-! # One log, several counters

All identities of a store share its rows, and each has its own counter.  An identity
that has not seen the last commit hands out an index that was handed out before, and
what was read before that commit is then taken for what is there now.
-/

namespace EdgeVms.Verified.OneLog

open Python Process EdgeVms.Cluster
open Platform (stored)

/-- A `get`: its path, the index that it returned, and how many commits the path had seen. -/
structure Reading where
  path : String
  index : Nat
  stamp : Nat

/-- What a caller names as `cas`. -/
inductive Cas where
  | any
  | exactly (index : Nat)
  /-- The index that the `n`th read has returned. -/
  | ofRead (n : Nat)

def Cas.value (reads : List Reading) : Cas → Option Nat
  | .any => none
  | .exactly index => some index
  | .ofRead n => some ((reads[n]?.map Reading.index).getD 0)

/-- The store, with what has been committed and read; no identity sees the rest. -/
structure Watched where
  store : FakeVariables
  /-- The indices of all commits, through whichever identity. -/
  committed : List Nat
  /-- How many commits each path has seen. -/
  commits : String → Nat
  reads : List Reading

inductive Event where
  | asWriter (v : Nat) (writer : String) (allowed : Option (List String))
  | get (path : String)
  | put (v : Nat) (path : String) (items : Dict Value) (cas : Cas)
  | delete (v : Nat) (path : String) (cas : Cas)

namespace Watched

def start (acl : Dict (List String)) : Watched := ⟨.new acl, [], fun _ => 0, []⟩

/-- A commit through identity `self` has left the store like this. -/
def commit (w : Watched) (self : FakeView) (path : String) (store : FakeVariables) : Watched :=
  ⟨store, w.committed ++ [self.raftIndex + 1], Function.update w.commits path (w.commits path + 1), w.reads⟩

def step (w : Watched) : Event → Watched
  | .asWriter v writer allowed => { w with store := w.store.asWriter v writer allowed }
  | .get path => { w with reads := w.reads ++ [⟨path, (w.store.get path).2, w.commits path⟩] }
  | .put v path items cas =>
    match w.store.views[v]? with
    | none => w
    | some self =>
      match w.store.put v self path items (cas.value w.reads) with
      | (.ok _, store) => w.commit self path store
      | (.error _, _) => w
  | .delete v path cas =>
    match w.store.views[v]? with
    | none => w
    | some self =>
      match w.store.delete v self path (cas.value w.reads) with
      | (.ok (), store) => w.commit self path store
      | (.error _, _) => w

/-- Identity `self` may put there, and the `cas` is not refused: the put returns this index. -/
def Puts (w : Watched) (v : Nat) (path : String) (items : Dict Value) (cas : Cas) (self : FakeView) (index : Nat) :
    Prop :=
  w.store.views[v]? = some self ∧ (w.store.put v self path items (cas.value w.reads)).1 = .ok index

/-- Raft's promise: the index of a put is greater than all before, and nobody has committed on the
path since the read that a check-and-set relies on. -/
def Promise (w : Watched) : Event → Prop
  | .put v path items cas => ∀ self index, w.Puts v path items cas self index →
      (∀ earlier ∈ w.committed, earlier < index) ∧
      ∀ n reading, cas = .ofRead n → w.reads[n]? = some reading → reading.path = path →
        w.commits path = reading.stamp
  | _ => True

/-- The put goes through an identity whose counter is the highest of all, and if it relies on a read
that found no row, then nobody has committed on the path since. -/
def Leads (w : Watched) : Event → Prop
  | .put v path items cas => ∀ self index, w.Puts v path items cas self index →
      (∀ view ∈ w.store.views, view.raftIndex ≤ self.raftIndex) ∧
      ∀ n reading, cas = .ofRead n → w.reads[n]? = some reading → reading.path = path → reading.index = 0 →
        w.commits path = reading.stamp
  | _ => True

end Watched

/-! ## What a step can do -/

section Requests

variable (store : FakeVariables) (v : Nat) (self : FakeView) (path : String) (items : Dict Value) (cas : Option Nat)

/-- A put is refused and changes nothing, or it commits. -/
theorem put_cases : (∃ error, store.put v self path items cas = (.error error, store)) ∨
    store.refuses path cas = none ∧ store.put v self path items cas =
      (.ok (self.raftIndex + 1), store.commit v self path (some (stored items, self.raftIndex + 1))) := by
  rw [FakeVariables.put]
  cases store.forbids self path with
  | some message => exact .inl ⟨_, rfl⟩
  | none =>
    cases store.refuses path cas with
    | some expected => exact .inl ⟨_, rfl⟩
    | none => exact .inr ⟨rfl, rfl⟩

theorem delete_cases : (∃ error, store.delete v self path cas = (.error error, store)) ∨
    store.delete v self path cas = (.ok (), store.commit v self path none) := by
  rw [FakeVariables.delete]
  cases store.forbids self path with
  | some message => exact .inl ⟨_, rfl⟩
  | none =>
    cases store.refuses path cas with
    | some expected => exact .inl ⟨_, rfl⟩
    | none => exact .inr rfl

end Requests

/-- A check-and-set that is not refused names the index of the moment. -/
theorem get_of_not_refused {store : FakeVariables} {path : String} {index : Nat}
    (passes : store.refuses path (some index) = none) : (store.get path).2 = index := by
  by_contra other
  simp [FakeVariables.refuses, Option.filter, Ne.symm other] at passes

variable {w : Watched}

/-- A commit through `by_`; a row that it leaves has the index after the highest counter. -/
structure Commits (w : Watched) (v : Nat) (by_ : FakeView) (row : Option (Platform.Items × Nat)) : Prop where
  identity : w.store.views[v]? = some by_
  index : ∀ items i, row = some (items, i) → i = by_.raftIndex + 1
  highest : row ≠ none → ∀ view ∈ w.store.views, view.raftIndex ≤ by_.raftIndex

/-- What a step that `Leads` allows can do. -/
inductive Stepped (w : Watched) : Watched → Prop
  | still : Stepped w w
  | joined (v : Nat) (self : FakeView) (writer : String) (acl : Dict (List String))
      (identity : w.store.views[v]? = some self) :
      Stepped w { w with store := ⟨w.store.items, acl, w.store.views ++ [⟨some writer, self.raftIndex⟩]⟩ }
  | read (path : String) : Stepped w { w with reads := w.reads ++ [⟨path, (w.store.get path).2, w.commits path⟩] }
  | committed (v : Nat) (self : FakeView) (path : String) (row : Option (Platform.Items × Nat)) (commits : Commits w v self row) :
      Stepped w (w.commit self path (w.store.commit v self path row))

theorem stepped {event : Event} (leads : w.Leads event) : Stepped w (w.step event) := by
  cases event with
  | get path => exact .read path
  | asWriter v writer allowed =>
    rw [Watched.step, FakeVariables.asWriter]
    cases identity : w.store.views[v]? with
    | none => exact .still
    | some self => exact .joined v self writer _ identity
  | put v path items cas =>
    rw [Watched.step]
    cases identity : w.store.views[v]? with
    | none => exact .still
    | some self =>
      dsimp only
      obtain ⟨error, refused⟩ | ⟨-, committed⟩ := put_cases w.store v self path items (cas.value w.reads)
      · rw [refused]
        exact .still
      · rw [committed]
        have puts : w.Puts v path items cas self (self.raftIndex + 1) := ⟨identity, by rw [committed]⟩
        refine .committed v self path _ ⟨identity, fun _ i row => ?_, fun _ => (leads self _ puts).1⟩
        cases row
        rfl
  | delete v path cas =>
    rw [Watched.step]
    cases identity : w.store.views[v]? with
    | none => exact .still
    | some self =>
      dsimp only
      obtain ⟨error, refused⟩ | committed := delete_cases w.store v self path (cas.value w.reads)
      · rw [refused]
        exact .still
      · rw [committed]
        exact .committed v self path none ⟨identity, by simp, by simp⟩

/-! ## What every such run keeps -/

structure Tracked (w : Watched) : Prop where
  floor : ∀ view ∈ w.store.views, FakeVariables.firstIndex ≤ view.raftIndex
  /-- Every counter is the index of a commit. -/
  seen : ∀ view ∈ w.store.views, view.raftIndex = FakeVariables.firstIndex ∨ view.raftIndex ∈ w.committed
  /-- No commit is ahead of all the counters. -/
  reached : ∀ index ∈ w.committed, ∃ view ∈ w.store.views, index ≤ view.raftIndex
  past : ∀ reading ∈ w.reads, reading.index = 0 ∨ reading.index ∈ w.committed
  rows : ∀ path, (w.store.get path).2 = 0 ∨ (w.store.get path).2 ∈ w.committed
  /-- A row that was read and has been committed on since has another index, or is gone. -/
  moved : ∀ reading ∈ w.reads, reading.index ≠ 0 → w.commits reading.path ≠ reading.stamp →
    (w.store.get reading.path).2 ≠ reading.index

@[simp] theorem get_commit_self (store : FakeVariables) (v : Nat) (self : FakeView) (path : String)
    (row : Option (Platform.Items × Nat)) :
    ((store.commit v self path row).get path).2 = (row.map Prod.snd).getD 0 := by
  cases row <;> simp [FakeVariables.get, FakeVariables.commit]

@[simp] theorem get_commit_other (store : FakeVariables) (v : Nat) (self : FakeView) {path path' : String}
    (row : Option (Platform.Items × Nat)) (other : path' ≠ path) :
    (store.commit v self path row).get path' = store.get path' := by
  simp [FakeVariables.get, FakeVariables.commit, other]

/-- After a commit every other counter is still there, and the counter of `self` has moved. -/
theorem mem_views_commit {store : FakeVariables} {v : Nat} {self : FakeView} (identity : store.views[v]? = some self)
    (path : String) (row : Option (Platform.Items × Nat)) {view : FakeView} (inside : view ∈ store.views) :
    ∃ view' ∈ (store.commit v self path row).views, view.raftIndex ≤ view'.raftIndex := by
  have bound : v < store.views.length := List.getElem?_eq_some_iff.mp identity |>.1
  obtain ⟨n, here⟩ := List.mem_iff_getElem?.mp inside
  by_cases same : n = v
  · subst same
    obtain rfl : view = self := by simpa [here] using identity
    exact ⟨_, List.mem_set bound _, Nat.le_succ _⟩
  · refine ⟨view, List.mem_iff_getElem?.mpr ⟨n, ?_⟩, le_rfl⟩
    rw [FakeVariables.commit, List.getElem?_set_ne (Ne.symm same), here]

theorem tracked_start (acl : Dict (List String)) : Tracked (.start acl) := by
  constructor <;> simp [Watched.start, FakeVariables.new, FakeVariables.get]

theorem Tracked.stepped {w' : Watched} (tracked : Tracked w) (stepped : Stepped w w') : Tracked w' := by
  cases stepped with
  | still => exact tracked
  | joined v self writer acl identity =>
    have member := List.mem_of_getElem? identity
    refine { tracked with floor := ?_, seen := ?_, reached := ?_ }
    · intro view inside
      obtain inside | rfl := List.mem_append.mp inside |>.imp_right List.mem_singleton.mp
      · exact tracked.floor view inside
      · exact tracked.floor self member
    · intro view inside
      obtain inside | rfl := List.mem_append.mp inside |>.imp_right List.mem_singleton.mp
      · exact tracked.seen view inside
      · exact tracked.seen self member
    · intro index inside
      obtain ⟨view, inside, ahead⟩ := tracked.reached index inside
      exact ⟨view, List.mem_append_left _ inside, ahead⟩
  | read path =>
    refine { tracked with past := ?_, moved := ?_ }
    · intro reading inside
      obtain inside | rfl := List.mem_append.mp inside |>.imp_right List.mem_singleton.mp
      · exact tracked.past reading inside
      · exact tracked.rows path
    · intro reading inside
      obtain inside | rfl := List.mem_append.mp inside |>.imp_right List.mem_singleton.mp
      · exact tracked.moved reading inside
      · intro _ moved
        exact absurd rfl moved
  | committed v self path row commits =>
    have member := List.mem_of_getElem? commits.identity
    have bound : v < w.store.views.length := List.getElem?_eq_some_iff.mp commits.identity |>.1
    refine ⟨?_, ?_, ?_, ?_, ?_, ?_⟩
    · intro view inside
      obtain inside | rfl := List.mem_or_eq_of_mem_set inside
      · exact tracked.floor view inside
      · exact (tracked.floor self member).trans (Nat.le_succ _)
    · intro view inside
      obtain inside | rfl := List.mem_or_eq_of_mem_set inside
      · exact (tracked.seen view inside).imp_right (List.mem_append_left _)
      · exact .inr (by simp [Watched.commit])
    · intro index inside
      obtain inside | rfl := List.mem_append.mp inside |>.imp_right List.mem_singleton.mp
      · obtain ⟨view, known, ahead⟩ := tracked.reached index inside
        obtain ⟨view', known, further⟩ := mem_views_commit commits.identity path row known
        exact ⟨view', known, ahead.trans further⟩
      · exact ⟨_, List.mem_set bound _, le_rfl⟩
    · intro reading inside
      exact (tracked.past reading inside).imp_right (List.mem_append_left _)
    · intro path'
      by_cases same : path' = path
      · subst same
        cases row with
        | none => simp [Watched.commit]
        | some entry =>
          have new := commits.index entry.1 entry.2 rfl
          exact .inr (by simp [Watched.commit, new])
      · simpa [Watched.commit, same] using (tracked.rows path').imp_right Or.inl
    · intro reading inside found moved
      by_cases same : reading.path = path
      · obtain nothing | known := tracked.past reading inside
        · exact absurd nothing found
        · -- the row of this commit is newer than everything that was read
          obtain ⟨view, known, ahead⟩ := tracked.reached reading.index known
          cases row with
          | none => simpa [Watched.commit, same] using Ne.symm found
          | some entry =>
            have highest := commits.highest (by simp) view known
            have new := commits.index entry.1 entry.2 rfl
            have current : ((w.store.commit v self path (some entry)).get path).2 = entry.2 := by simp
            simp only [Watched.commit, same, current]
            omega
      · have before : w.commits reading.path ≠ reading.stamp := by simpa [Watched.commit, same] using moved
        simpa [Watched.commit, same] using tracked.moved reading inside found before

/-! ## The promise -/

/-- Where nothing has been broken yet, a step keeps the promise exactly when its counter leads. -/
theorem promise_iff_leads (tracked : Tracked w) (event : Event) : w.Leads event ↔ w.Promise event := by
  cases event with
  | get path => exact Iff.rfl
  | asWriter v writer allowed => exact Iff.rfl
  | delete v path cas => exact Iff.rfl
  | put v path items cas =>
    refine forall_congr' fun self => forall_congr' fun index => imp_congr_right fun puts => ?_
    obtain ⟨identity, returned⟩ := puts
    obtain ⟨error, refused⟩ | ⟨passes, committed⟩ := put_cases w.store v self path items (cas.value w.reads)
    · rw [refused] at returned
      cases returned
    · rw [committed] at returned
      obtain rfl := Except.ok.inj returned
      have member := List.mem_of_getElem? identity
      constructor
      · rintro ⟨highest, absent⟩
        refine ⟨fun earlier before => ?_, fun n reading based made here => ?_⟩
        · obtain ⟨view, known, ahead⟩ := tracked.reached earlier before
          have behind := highest view known
          omega
        · by_cases nothing : reading.index = 0
          · exact absent n reading based made here nothing
          · -- the index still stands, so the row is the one that was read
            by_contra moved
            have inside := List.mem_of_getElem? made
            have current : (w.store.get path).2 = reading.index := by
              rw [based, Cas.value, made] at passes
              exact get_of_not_refused passes
            exact tracked.moved reading inside nothing (by rw [here]; exact moved) (by rw [here]; exact current)
      · rintro ⟨greater, unmoved⟩
        refine ⟨fun view known => ?_, fun n reading based made here _ => unmoved n reading based made here⟩
        obtain first | commit := tracked.seen view known
        · have floor := tracked.floor self member
          omega
        · have behind := greater view.raftIndex commit
          omega

/-- A run keeps raft's promise exactly when each put goes through an identity whose counter is the
highest, and no check-and-set relies on the absence of a row that was committed on since. -/
theorem one_log_iff (acl : Dict (List String)) (events : List Event) :
    Along Watched.step Watched.Promise events (.start acl) ↔ Along Watched.step Watched.Leads events (.start acl) := by
  have keeps : ∀ w event, Watched.Leads w event → Tracked w → Tracked (w.step event) :=
    fun w event leads tracked => tracked.stepped (stepped leads)
  exact (along_iff_of_invariant keeps (fun w event tracked => promise_iff_leads tracked event) events
    (tracked_start acl)).symm

/-! ## Two identities -/

/-- The identity was copied before the first put: its put gets the same index. -/
theorem index_twice :
    ¬Along Watched.step Watched.Promise [.asWriter 0 "vmsworker" none, .put 0 "vms/a" [] .any, .put 1 "vms/a" [] .any]
      (.start []) := by
  intro along
  obtain ⟨-, along⟩ := along_cons.mp along
  obtain ⟨-, along⟩ := along_cons.mp along
  have greater := ((along_cons.mp along).1 ⟨some "vmsworker", 1000⟩ 1001 ⟨rfl, rfl⟩).1 1001 (.head _)
  omega

end EdgeVms.Verified.OneLog
