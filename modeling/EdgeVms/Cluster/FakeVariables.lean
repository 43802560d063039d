import EdgeVms.Platform.Variables

/-! # The store of the tests

One raft log in memory, seen through any number of identities.  `as_writer` copies
the fields of the object it is called on: the rows and the ACL are the same objects
afterwards, the counter is a number of its own.
-/

namespace EdgeVms.Cluster

open Python
open Platform (stored)

inductive FakeError where
  | forbidden (message : String)
  | conflict (message : String)
  deriving DecidableEq

/-- What each object has for itself. -/
structure FakeView where
  writer : Option String
  raftIndex : Nat

/-- The rows and the ACL that all the objects share, and the objects. -/
structure FakeVariables where
  items : String → Option (Platform.Items × Nat)
  acl : Dict (List String)
  views : List FakeView

namespace FakeVariables

/-- The counter of a new store. -/
def firstIndex : Nat := 1000

/-- A new store, with this ACL. -/
def new (acl : Dict (List String)) : FakeVariables := ⟨fun _ => none, acl, [⟨none, firstIndex⟩]⟩

/-- `as_writer` of object `v` -/
def asWriter (store : FakeVariables) (v : Nat) (writer : String) (allowed : Option (List String)) : FakeVariables :=
  match store.views[v]? with
  | none => store
  | some self =>
    { store with
      views := store.views ++ [⟨some writer, self.raftIndex⟩]
      acl := allowed.elim store.acl (store.acl.set writer) }

/-- `_acl` of the object -/
def forbids (store : FakeVariables) (self : FakeView) (path : String) : Option String :=
  Platform.View.forbids ⟨self.writer, store.acl⟩ path

def get (store : FakeVariables) (path : String) : Option Platform.Items × Nat :=
  match store.items path with
  | none => (none, 0)
  | some (items, idx) => (some items, idx)

/-- `cas is not None and cas != current` -/
def refuses (store : FakeVariables) (path : String) (cas : Option Nat) : Option Nat :=
  cas.filter fun expected => expected ≠ (store.get path).2

def conflict (store : FakeVariables) (path : String) (expected : Nat) : FakeError :=
  .conflict ("cas=" ++ toString expected ++ " but ModifyIndex=" ++ toString (store.get path).2)

/-- What a commit of object `v` leaves: the counter of this object has moved. -/
def commit (store : FakeVariables) (v : Nat) (self : FakeView) (path : String) (row : Option (Platform.Items × Nat)) :
    FakeVariables :=
  { store with
    items := Function.update store.items path row
    views := store.views.set v { self with raftIndex := self.raftIndex + 1 } }

def put (store : FakeVariables) (v : Nat) (self : FakeView) (path : String) (items : Dict Value) (cas : Option Nat) :
    Except FakeError Nat × FakeVariables :=
  match store.forbids self path with
  | some message => (.error (.forbidden message), store)
  | none =>
    match store.refuses path cas with
    | some expected => (.error (store.conflict path expected), store)
    | none => (.ok (self.raftIndex + 1), store.commit v self path (some (stored items, self.raftIndex + 1)))

def delete (store : FakeVariables) (v : Nat) (self : FakeView) (path : String) (cas : Option Nat) :
    Except FakeError Unit × FakeVariables :=
  match store.forbids self path with
  | some message => (.error (.forbidden message), store)
  | none =>
    match store.refuses path cas with
    | some expected => (.error (store.conflict path expected), store)
    -- the counter moves even when there was no row to remove
    | none => (.ok (), store.commit v self path none)

end FakeVariables

end EdgeVms.Cluster
