import EdgeVms.Domain.Enroll

/-! # Serial numbers

The signer counts its certificates in memory, from its construction on; its root is
in the store, and the next construction finds it there.
-/

namespace EdgeVms.Domain

/-- A number of the counter, or one of `x509.random_serial_number()`: 159 random bits, which no
counter reaches and which do not repeat themselves. -/
inductive Serial where
  | counted (n : Nat)
  | random (bits : Nat)
  deriving DecidableEq

/-- A signer and its counter. -/
structure SignerInstance (K : Type) where
  signer : Signer K
  serial : Nat

/-- Who asks for a certificate. -/
inductive Asking (K : Type) where
  | issue (cn : String) (kind : Kind) (publicKey : K) (lifetime : Option ℚ)
  | renew (cert : Certificate K) (kind : Kind)
  /-- `Registrar._issue`, for a device that may enroll. -/
  | enroll (hello : Hello K)

/-- What `issue` is called with; `renew` needs a common name, and an enrollment a public key. -/
def Asking.arguments {K : Type} (parse : String → Option K) : Asking K → Option (String × Kind × K × Option ℚ)
  | .issue cn kind publicKey lifetime => some (cn, kind, publicKey, lifetime)
  | .renew cert kind => cert.subject.commonNames.head?.map fun cn => (cn, kind, cert.publicKey, none)
  | .enroll hello => (parse hello.csrPub).map fun pub => (hello.serial, .ldevid, pub, none)

/-- A certificate with its serial number; a leaf with the construction that made it, and which of the calls
of `issue` of this construction it was. -/
structure Issued (K : Type) where
  cert : Certificate K
  serial : Serial
  made : Option (Nat × Nat)

/-- The store, the signers that run, and what they have signed.  `κ` are the places where a signer may
run. -/
structure Issuance (K κ : Type) where
  /-- `domain/signer` -/
  row : Option (Keys K)
  /-- The signer of each place, with the number of its construction. -/
  running : κ → Option (Nat × SignerInstance K)
  constructions : Nat
  log : List (Issued K)
  /-- The construction of each call of `issue`. -/
  calls : List Nat
  /-- The random serial numbers so far. -/
  drawn : List Nat

namespace Issuance

variable {K κ : Type} [DecidableEq κ]

inductive Event (K κ : Type) where
  /-- A construction that finds nothing; somebody else may have written since it looked. -/
  | create (place : κ) (domain org : String) (now : ℚ) (key tokenKey : K) (kid : String) (bits : Nat)
  /-- A restart, or a failover: the construction finds the variable written. -/
  | load (place : κ) (domain org : String)
  /-- `builds` is whether the builder takes the name. -/
  | issue (place : κ) (asking : Asking K) (now : ℚ) (builds : Bool)
  | rotateRoot (place : κ) (overlap now : ℚ) (key : K) (bits crossBits : Nat)
  /-- The write of a rotation gets through. -/
  | persist (place : κ)

def start : Issuance K κ := ⟨none, fun _ => none, 0, [], [], []⟩

/-- The place has this signer from now on. -/
def place (state : Issuance K κ) (at_ : κ) (me : SignerInstance K) : Issuance K κ :=
  { state with
    running := Function.update state.running at_ (some (state.constructions, me))
    constructions := state.constructions + 1 }

def step (parse : String → Option K) (state : Issuance K κ) : Event K κ → Issuance K κ
  | .create place domain org now key tokenKey kid bits =>
    if bits ∈ state.drawn then state
    else
      let signer := Signer.create domain org now key tokenKey kid
      { state.place place ⟨signer, 0⟩ with
        row := some signer.keys
        log := state.log ++ [⟨signer.root.cert, .random bits, none⟩]
        drawn := bits :: state.drawn }
  | .load place domain org =>
    match state.row with
    | none => state
    | some items => state.place place ⟨Signer.load domain org items, 0⟩
  | .issue place asking now builds =>
    match state.running place, asking.arguments parse with
    | some (id, me), some (cn, kind, publicKey, lifetime) =>
      -- counted before the certificate is built
      let serial := me.serial + 1
      let state := { state with
        running := Function.update state.running place (some (id, { me with serial := serial }))
        calls := state.calls ++ [id] }
      if builds then
        { state with log := state.log ++ [⟨me.signer.issue cn kind publicKey lifetime now, .counted serial,
          some (id, state.calls.count id)⟩] }
      else state
    | _, _ => state
  | .rotateRoot place overlap now key bits crossBits =>
    match state.running place with
    | none => state
    | some (id, me) =>
      if bits ∈ state.drawn ∨ crossBits ∈ state.drawn ∨ bits = crossBits then state
      else
        -- the bundle plays no part in what is signed
        let (signer, _, cross) := me.signer.rotateRoot TrustBundle.empty overlap now key
        { state with
          running := Function.update state.running place (some (id, { me with signer := signer }))
          log := state.log ++ [⟨signer.root.cert, .random bits, none⟩, ⟨cross, .random crossBits, none⟩]
          drawn := bits :: crossBits :: state.drawn }
  | .persist place =>
    match state.running place with
    | none => state
    | some (_, me) => { state with row := some me.signer.keys }

end Issuance

end EdgeVms.Domain
