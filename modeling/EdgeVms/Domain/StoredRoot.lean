import EdgeVms.Domain.Rotation

/-! # A rotation and its store

`rotate_root` changes the signer and the bundle first, and writes last.  The two
requests of its write meet a store that others write, too, and that may not answer.
-/

namespace EdgeVms.Domain

inductive StoreFault where
  | conflict
  | unreachable
  deriving DecidableEq

/-- What the requests of `_persist` meet. -/
structure Meanwhile (K : Type) where
  /-- What the read raises, if it does. -/
  get : Option StoreFault
  /-- What others write between the read and the write. -/
  others : List (Keys K)
  /-- The answer of the write is lost: was it applied? -/
  lost : Option Bool

/-- The signer, the bundle and `domain/signer`. -/
structure Rotating (K : Type) where
  signer : Signer K
  bundle : TrustBundle K
  row : Process.Versioned Unit fun _ => Keys K

namespace Rotating

variable {K : Type}

/-- `_persist` -/
def persist (row : Process.Versioned Unit fun _ => Keys K) (items : Keys K) (meanwhile : Meanwhile K) :
    Except StoreFault Unit × Process.Versioned Unit fun _ => Keys K :=
  match meanwhile.get with
  | some fault => (.error fault, row)
  | none =>
    let idx := row.version ()
    let current := meanwhile.others.foldl (fun row other => row.write () other) row
    let answer := if idx = current.version () then .ok () else .error .conflict
    let written := if idx = current.version () then current.write () items else current
    match meanwhile.lost with
    | none => (answer, written)
    | some applied => (.error .unreachable, if applied then written else current)

/-- The new root and the cross certificate, if the call returns; the signer and the bundle have changed
in either case. -/
def rotateRoot (state : Rotating K) (overlap now : ℚ) (key : K) (meanwhile : Meanwhile K) :
    Except StoreFault (Root K × Certificate K) × Rotating K :=
  let (signer, bundle, cross) := state.signer.rotateRoot state.bundle overlap now key
  let (written, row) := persist state.row signer.keys meanwhile
  ((fun _ => (signer.root, cross)) <$> written, ⟨signer, bundle, row⟩)

/-- A signer on its first start, with a bundle that trusts its root. -/
def start (domain org : String) (time : ℚ) (key tokenKey : K) (kid : String) : Rotating K :=
  let signer := Signer.create domain org time key tokenKey kid
  ⟨signer, TrustBundle.empty.add signer.root.cert 0, (Process.Versioned.empty 1000).write () signer.keys⟩

end Rotating

end EdgeVms.Domain
