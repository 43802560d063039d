import EdgeVms.Platform.Variables

/-! # The config store of a cluster

The same protocol, answered by raft: what `FakeVariables` does for its one identity, over the
rows of the platform.  Its exceptions are classes of its own.
-/

namespace EdgeVms.Cluster

open Process Python
open Platform (Rows Key Exn View stored listing)

namespace RaftVariables

def get (rows : Rows) (key : Key) : Except Exn (Option Platform.Items × Nat) := .ok (rows.read key, rows.version key)

def put (view : View) (rows : Rows) (key : Key) (items : Dict Value) (cas : Option Nat) : Except Exn Nat × Rows :=
  match view.forbids key.path with
  | some message => (.error (.forbidden .cluster message), rows)
  | none =>
    match cas with
    | some expected =>
      if expected ≠ rows.version key then
        (.error (.conflict .cluster
          ("cas=" ++ toString expected ++ " but ModifyIndex=" ++ toString (rows.version key))), rows)
      else (.ok (rows.index + 1), rows.write key (stored items))
    | none => (.ok (rows.index + 1), rows.write key (stored items))

end RaftVariables

def RaftVariables : Platform.Variables := ⟨RaftVariables.get, RaftVariables.put, listing⟩

end EdgeVms.Cluster
