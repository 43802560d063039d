import EdgeVms.Python.Value

/-! # Certificates and trust bundles

Signatures are symbolic: a certificate says which key signed its contents, and
nobody but the holder of that key can make it say so.  Names are compared by
their RFC 4514 text, as the verifier compares them.
-/

namespace EdgeVms.Domain

open Python

structure Name where
  rfc4514 : String
  commonNames : List String
  deriving DecidableEq

/-- `K` are the key pairs. -/
structure Certificate (K : Type) where
  subject : Name
  issuer : Name
  publicKey : K
  notValidBefore : ℚ
  notValidAfter : ℚ
  /-- The key under which the signature over all the above verifies. -/
  signature : Option K
  deriving DecidableEq

/-- The roots a peer accepts, each with its retirement time (0 is current), one for each subject. -/
structure TrustBundle (K : Type) where
  roots : List (Certificate K × ℚ)
  distinct : (roots.map fun entry => entry.1.subject.rfc4514).Nodup

/-- Why a certificate is not accepted. -/
inductive VerifyFailure where
  | verifyError (message : String)
  | indexError
  deriving DecidableEq

namespace TrustBundle

variable {K : Type}

def empty : TrustBundle K := ⟨[], List.nodup_nil⟩

/-- `roots[subject] = (root, retireAt)`, as a list. -/
def setRoot (root : Certificate K) (retireAt : ℚ) : List (Certificate K × ℚ) → List (Certificate K × ℚ)
  | [] => [(root, retireAt)]
  | (other, at_) :: rest =>
    if other.subject.rfc4514 = root.subject.rfc4514 then (root, retireAt) :: rest
    else (other, at_) :: setRoot root retireAt rest

theorem setRoot_names (root : Certificate K) (retireAt : ℚ) (roots : List (Certificate K × ℚ)) (name : String) :
    name ∈ (setRoot root retireAt roots).map (fun entry => entry.1.subject.rfc4514) ↔
      name = root.subject.rfc4514 ∨ name ∈ roots.map fun entry => entry.1.subject.rfc4514 := by
  induction roots with
  | nil => simp [setRoot]
  | cons entry rest ih =>
    obtain ⟨other, at_⟩ := entry
    rw [setRoot]
    split
    next same => simp [same]
    next differs =>
      rw [List.map_cons, List.mem_cons, ih, List.map_cons, List.mem_cons]
      tauto

theorem setRoot_distinct (root : Certificate K) (retireAt : ℚ) {roots : List (Certificate K × ℚ)}
    (distinct : (roots.map fun entry => entry.1.subject.rfc4514).Nodup) :
    ((setRoot root retireAt roots).map fun entry => entry.1.subject.rfc4514).Nodup := by
  induction roots with
  | nil => simp [setRoot]
  | cons entry rest ih =>
    obtain ⟨other, at_⟩ := entry
    rw [List.map_cons, List.nodup_cons] at distinct
    rw [setRoot]
    split
    next same =>
      rw [List.map_cons, List.nodup_cons, ← same]
      exact distinct
    next differs =>
      rw [List.map_cons, List.nodup_cons, setRoot_names]
      refine ⟨?_, ih distinct.2⟩
      rintro (same | member)
      · exact differs same
      · exact distinct.1 member

/-- `add` and `retire`: the root of this name, with this retirement time. -/
def add (bundle : TrustBundle K) (root : Certificate K) (retireAt : ℚ) : TrustBundle K :=
  ⟨setRoot root retireAt bundle.roots, setRoot_distinct root retireAt bundle.distinct⟩

def retire (bundle : TrustBundle K) (root : Certificate K) (at_ : ℚ) : TrustBundle K := bundle.add root at_

variable [DecidableEq K]

/-- The loop of `verify`, over the roots and then the cross certificates. -/
def verifyRounds (cert : Certificate K) (now skew : ℚ) :
    List (Certificate K × ℚ) → Except VerifyFailure String
  | [] => .error (.verifyError ("no trusted root named " ++ cert.issuer.rfc4514))
  | (root, retireAt) :: rest =>
    if root.subject.rfc4514 ≠ cert.issuer.rfc4514 then verifyRounds cert now skew rest
    else if retireAt ≠ 0 ∧ now ≥ retireAt then
      .error (.verifyError ("issuer " ++ cert.issuer.rfc4514 ++ " was retired at " ++ fixed retireAt))
    else if cert.signature ≠ some root.publicKey then
      .error (.verifyError "signature does not verify under the root it names")
    else if now < cert.notValidBefore - skew then
      .error (.verifyError ("not yet valid: starts in " ++ fixed (cert.notValidBefore - now) ++ "s — clock skew?"))
    else if now > cert.notValidAfter + skew then
      .error (.verifyError ("expired " ++ fixed (now - cert.notValidAfter) ++ "s ago"))
    else match root.subject.commonNames with
      | cn :: _ => .ok cn
      | [] => .error .indexError

/-- The common name of the root that issued the certificate. -/
def verify (bundle : TrustBundle K) (cert : Certificate K) (now skew : ℚ) (cross : List (Certificate K)) :
    Except VerifyFailure String :=
  verifyRounds cert now skew (bundle.roots ++
    (cross.filter fun c => c.subject.rfc4514 = cert.issuer.rfc4514).map fun c => (c, 0))

end TrustBundle

end EdgeVms.Domain
