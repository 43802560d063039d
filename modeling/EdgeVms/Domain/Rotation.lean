import EdgeVms.Domain.KeyStore
import Mathlib.Algebra.Order.Floor.Ring
import Mathlib.Data.Rat.Floor

/-! # Leaves, and the rotation of the root

What the certificate authority signs, when a holder asks again, and a holder that
asks in time, at one clock.
-/

namespace EdgeVms.Domain

open Python

/-- The keys of `LIFETIMES`. -/
inductive Kind where
  | root
  | service
  | ldevid
  deriving DecidableEq

def Kind.lifetime : Kind → ℚ
  | root => rootLifetime
  | service => 3 * 86400
  | ldevid => 2 * (365 * 86400)

def Kind.margin : Kind → ℚ
  | root => 365 * 86400
  | service => 86400
  | ldevid => 90 * 86400

/-- A time as a certificate carries it, in whole seconds. -/
def utc (ts : ℚ) : ℚ := ⌊ts⌋

namespace Signer

variable {K : Type}

/-- A leaf. -/
def issue (signer : Signer K) (cn : String) (kind : Kind) (publicKey : K) (lifetime : Option ℚ) (now : ℚ) :
    Certificate K where
  subject := nameOf cn signer.org
  issuer := signer.root.cert.subject
  publicKey := publicKey
  notValidBefore := utc (now - 60)
  notValidAfter := utc (now + lifetime.getD kind.lifetime)
  signature := some signer.root.key

def needsRenewal (cert : Certificate K) (kind : Kind) (now : ℚ) : Bool := now ≥ cert.notValidAfter - kind.margin

/-- The same key and the same name, in a fresh window; a name without a common name raises. -/
def renew (signer : Signer K) (cert : Certificate K) (kind : Kind) (now : ℚ) : Option (Certificate K) :=
  cert.subject.commonNames.head?.map fun cn => signer.issue cn kind cert.publicKey none now

/-- The new root, the bundle that trusts it beside the old one, and the certificate for peers that only hold the old
one. -/
def rotateRoot (signer : Signer K) (bundle : TrustBundle K) (overlap now : ℚ) (key : K) :
    Signer K × TrustBundle K × Certificate K :=
  let old := signer.root
  let signer := signer.withNewRoot now key
  let cross : Certificate K :=
    ⟨signer.root.cert.subject, old.cert.subject, key, utc (now - 60), utc (now + overlap), some old.key⟩
  (signer, (bundle.add signer.root.cert 0).retire old.cert (now + overlap), cross)

end Signer

/-! ## A holder -/

/-- The signer, its bundle, and one holder with the time of its last look at its certificate. -/
structure Holding (K : Type) where
  signer : Signer K
  bundle : TrustBundle K
  clock : ℚ
  cert : Option (Certificate K)
  checked : ℚ

namespace Holding

variable {K : Type}

inductive Event (K : Type) where
  | rotate (overlap : ℚ) (key : K)
  | enroll (cn : String) (publicKey : K)
  | check

/-- A signer on its first start, with a bundle that trusts its root. -/
def start (domain org : String) (time : ℚ) (key tokenKey : K) (kid : String) : Holding K :=
  let signer := Signer.create domain org time key tokenKey kid
  ⟨signer, TrustBundle.empty.add signer.root.cert 0, time, none, time⟩

def step (kind : Kind) (state : Holding K) : ℚ × Event K → Holding K
  | (now, .rotate overlap key) =>
    let (signer, bundle, _) := state.signer.rotateRoot state.bundle overlap now key
    { state with signer := signer, bundle := bundle, clock := now }
  | (now, .enroll cn publicKey) =>
    { state with clock := now, cert := some (state.signer.issue cn kind publicKey none now), checked := now }
  | (now, .check) =>
    match state.cert with
    | none => { state with clock := now }
    | some cert =>
      if Signer.needsRenewal cert kind now then
        match state.signer.renew cert kind now with
        | some renewed => { state with clock := now, cert := some renewed, checked := now }
        | none => { state with clock := now }
      else { state with clock := now, checked := now }

end Holding

end EdgeVms.Domain
