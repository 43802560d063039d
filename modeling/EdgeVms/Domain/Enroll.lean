import EdgeVms.Domain.Rotation

/-! # Enrollment

A box says hello; the registrar lets it in on a voucher, or on the approval of a
request that waits for one.  A signature is the key that made it.
-/

namespace EdgeVms.Domain

open Python

structure Hello (K : Type) where
  serial : String
  nonce : String
  /-- In hexadecimal. -/
  csrPub : String
  /-- Nothing if this is not a certificate. -/
  idevid : Option (Certificate K)
  /-- The key that signed the serial, the nonce and the public key. -/
  proof : Option K
  deriving DecidableEq

structure VoucherBody where
  serial : String
  registrar : String
  nonce : String
  exp : ℚ
  deriving DecidableEq

inductive Voucher (K : Type) where
  /-- Bytes without a separator. -/
  | unsplit
  /-- A body, if it is one, and the key that signed it. -/
  | signed (body : Option VoucherBody) (signature : Option K)
  deriving DecidableEq

def Voucher.nonce {K : Type} : Voucher K → Option String
  | .signed (some body) _ => some body.nonce
  | _ => none

inductive EnrollFailure where
  | enrollError (message : String)
  | verify (failure : VerifyFailure)
  | valueError
  | indexError
  deriving DecidableEq

structure Pending (K : Type) where
  serial : String
  hello : Hello K
  requestedAt : ℚ
  expiresAt : ℚ

structure AuditEntry where
  at_ : ℚ
  serial : String
  how : String
  by_ : Option String

/-- What a registrar is made with. -/
structure Door (K : Type) where
  id : String
  signer : Signer K
  vendor : TrustBundle K
  masaPublic : Option K
  approvalTtl : ℚ

structure Registrar (K : Type) extends Door K where
  pending : Dict (Pending K)
  audit : List AuditEntry

namespace Registrar

variable {K : Type} [DecidableEq K]

def create (domain : String) (signer : Signer K) (manufacturerRoot : Certificate K) (masaPublic : Option K)
    (approvalTtl : ℚ) : Registrar K :=
  ⟨⟨domain ++ "/registrar", signer, TrustBundle.empty.add manufacturerRoot 0, masaPublic, approvalTtl⟩, [], []⟩

def checkHello (registrar : Registrar K) (hello : Hello K) (now : ℚ) : Except EnrollFailure (Certificate K) :=
  match hello.idevid with
  | none => .error .valueError
  | some cert =>
    match registrar.vendor.verify cert now 300 [] with
    | .error failure => .error (.verify failure)
    | .ok _ =>
      if hello.proof ≠ some cert.publicKey then .error (.enrollError "the pledge does not hold the IDevID's key")
      else match cert.subject.commonNames with
        | [] => .error .indexError
        | cn :: _ =>
          if cn ≠ hello.serial then .error (.enrollError "IDevID names a different serial") else .ok cert

def checkVoucher (registrar : Registrar K) (voucher : Voucher K) (serial nonce : String) (now : ℚ) :
    Except EnrollFailure Unit :=
  match registrar.masaPublic with
  | none => .error (.enrollError "this domain has no MASA key; use registration with approval")
  | some masaPublic =>
    match voucher with
    | .unsplit => .error .valueError
    | .signed body signature =>
      if signature ≠ some masaPublic then .error (.enrollError "voucher signature does not verify")
      else match body with
        | none => .error .valueError
        | some v =>
          if v.serial ≠ serial ∨ v.registrar ≠ registrar.id ∨ v.nonce ≠ nonce ∨ v.exp < now then
            .error (.enrollError
              "voucher does not name this pledge, this registrar and this nonce, or has expired")
          else .ok ()

def record (registrar : Registrar K) (entry : AuditEntry) : Registrar K :=
  { registrar with audit := registrar.audit ++ [entry] }

/-- What a method returns or raises, and the registrar after it. -/
abbrev Answer (K α : Type) := Except EnrollFailure α × Registrar K

/-- `parse` makes a public key of its hexadecimal text. -/
def issue (parse : String → Option K) (registrar : Registrar K) (hello : Hello K) (how : String) (now : ℚ) :
    Answer K (Certificate K) :=
  match parse hello.csrPub with
  | none => (.error .valueError, registrar)
  | some pub =>
    (.ok (registrar.signer.issue hello.serial .ldevid pub none now), registrar.record ⟨now, hello.serial, how, none⟩)

def enrollWithVoucher (parse : String → Option K) (registrar : Registrar K) (hello : Hello K) (voucher : Voucher K)
    (now : ℚ) : Answer K (Certificate K) :=
  match registrar.checkHello hello now with
  | .error failure => (.error failure, registrar)
  | .ok _ =>
    match registrar.checkVoucher voucher hello.serial hello.nonce now with
    | .error failure => (.error failure, registrar)
    | .ok () => registrar.issue parse hello "voucher" now

def expirePending (registrar : Registrar K) (now : ℚ) : List String × Registrar K :=
  let gone := (registrar.pending.filter fun entry => entry.2.expiresAt ≤ now).map Prod.fst
  (gone, { registrar with
    pending := registrar.pending.filter fun entry => ¬ entry.2.expiresAt ≤ now
    audit := registrar.audit ++ gone.map fun s => ⟨now, s, "expired unapproved", none⟩ })

def request (registrar : Registrar K) (hello : Hello K) (now : ℚ) : Answer K String :=
  match registrar.checkHello hello now with
  | .error failure => (.error failure, registrar)
  | .ok _ =>
    let (_, registrar) := registrar.expirePending now
    (.ok hello.serial, { registrar with
      pending := registrar.pending.set hello.serial ⟨hello.serial, hello, now, now + registrar.approvalTtl⟩
      audit := registrar.audit ++ [⟨now, hello.serial, "requested", none⟩] })

def approve (parse : String → Option K) (registrar : Registrar K) (serial by_ : String) (now : ℚ) :
    Answer K (Certificate K) :=
  let (_, registrar) := registrar.expirePending now
  match registrar.pending.get? serial with
  | none => (.error (.enrollError (serial ++ ": no pending request (expired, or never asked)")), registrar)
  | some p =>
    let registrar := { registrar with pending := registrar.pending.pop serial }
    (registrar.record ⟨now, serial, "approved", some by_⟩).issue parse p.hello ("approved by " ++ by_) now

def reject (registrar : Registrar K) (serial by_ : String) (now : ℚ) : Registrar K :=
  match registrar.pending.get? serial with
  | none => registrar
  | some _ =>
    let registrar := { registrar with pending := registrar.pending.pop serial }
    registrar.record ⟨now, serial, "rejected", some by_⟩

inductive Call (K : Type) where
  | request (hello : Hello K)
  | approve (serial by_ : String)
  | reject (serial by_ : String)
  | expirePending
  | enrollWithVoucher (hello : Hello K) (voucher : Voucher K)
  deriving DecidableEq

/-- The certificate that a call issues, if it does, and the registrar after it. -/
def call (parse : String → Option K) (registrar : Registrar K) : ℚ × Call K → Option (Certificate K) × Registrar K
  | (now, .request hello) => (none, (registrar.request hello now).2)
  | (now, .approve serial by_) =>
    let (answer, registrar) := registrar.approve parse serial by_ now
    (answer.toOption, registrar)
  | (now, .reject serial by_) => (none, registrar.reject serial by_ now)
  | (now, .expirePending) => (none, (registrar.expirePending now).2)
  | (now, .enrollWithVoucher hello voucher) =>
    let (answer, registrar) := registrar.enrollWithVoucher parse hello voucher now
    (answer.toOption, registrar)

def step (parse : String → Option K) (registrar : Registrar K) (event : ℚ × Call K) : Registrar K :=
  (registrar.call parse event).2

end Registrar

end EdgeVms.Domain
