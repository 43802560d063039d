import EdgeVms.Python.Value
import Mathlib.Data.List.Sort

/-! # Tokens and their revocation

Signatures are symbolic, as in `Signer`.  The second half is the signer service
with the agents that copy its revocation list: one machine, whose steps are
taken at one clock.
-/

namespace EdgeVms.Domain

open Python

structure Payload where
  sub : String
  iat : ℚ
  exp : ℚ
  jti : String
  deriving DecidableEq

/-- `K` are the key pairs. -/
structure Token (K : Type) where
  kid : String
  payload : Payload
  /-- The key under which the signature over header and payload verifies. -/
  signature : Option K
  deriving DecidableEq

/-- The public keys that are trusted, each with the time it retires, if it does. -/
structure KeySet (K : Type) where
  current : String
  keys : Dict K
  retireAt : Dict ℚ

inductive TokenError where
  | unknownKey (message : String)
  | badSignature (message : String)
  | expired (message : String)
  | revoked (jti : String)
  deriving DecidableEq

section

variable {K : Type}

def KeySet.usable (keys : KeySet K) (kid : String) (now : ℚ) : Bool :=
  (keys.keys.get? kid).isSome && match keys.retireAt.get? kid with
    | none => true
    | some retireAt => now < retireAt

variable [DecidableEq K]

/-- Offline: the payload, unless the token is not to be trusted now. -/
def Token.verify (token : Token K) (keys : KeySet K) (revoked : List String) (now skew : ℚ) :
    Except TokenError Payload :=
  if !keys.usable token.kid now then
    .error (.unknownKey ("kid " ++ quoted token.kid ++ " is not in the trusted set (or retired)"))
  else if token.signature = none ∨ token.signature ≠ keys.keys.get? token.kid then
    .error (.badSignature "signature does not verify")
  else if now > token.payload.exp + skew then
    .error (.expired ("expired " ++ fixed (now - token.payload.exp) ++ "s ago"))
  else if now < token.payload.iat - skew then
    .error (.badSignature ("issued " ++ fixed (token.payload.iat - now) ++ "s in the future — clock skew"))
  else if token.payload.jti ∈ revoked then .error (.revoked token.payload.jti)
  else .ok token.payload

/-- The tolerated difference of the clocks. -/
def tokenSkew : ℚ := 60

/-- The half of the signer that holds the private key. -/
structure TokenIssuer (K : Type) where
  key : K
  kid : String
  previous : List (String × K × ℚ)

namespace TokenIssuer

def keyset (issuer : TokenIssuer K) : KeySet K :=
  issuer.previous.foldl
    (fun keys (kid, key, until_) =>
      { keys with keys := keys.keys.set kid key, retireAt := keys.retireAt.set kid until_ })
    ⟨issuer.kid, [(issuer.kid, issuer.key)], []⟩

def issue (issuer : TokenIssuer K) (subject : String) (lifetime now : ℚ) (jti : String) : Token K :=
  ⟨issuer.kid, ⟨subject, now, now + lifetime, jti⟩, some issuer.key⟩

/-- A new key under a new id; the old one stays in the set for the overlap. -/
def rotate (issuer : TokenIssuer K) (overlap now : ℚ) (key : K) (kid : String) : TokenIssuer K :=
  ⟨key, kid, (issuer.previous ++ [(issuer.kid, issuer.key, now + overlap)]).filter fun (_, _, until_) => until_ > now⟩

end TokenIssuer

end

/-- The ids that are revoked, each with the expiry of its token. -/
abbrev RevocationList := Dict ℚ

namespace RevocationList

def revoke (entries : RevocationList) (payload : Payload) : RevocationList := entries.set payload.jti payload.exp

def prune (entries : RevocationList) (now : ℚ) : RevocationList := entries.filter fun entry => entry.2 > now

/-- The row of the config store: the text `jti:exp,...`, kept as its parts. -/
abbrev Row := List (String × ℚ)

/-- An id is of hexadecimal digits and a float reads back as itself, so the parts survive the text. -/
def toItems (entries : RevocationList) : Row := entries.insertionSort fun left right => left.1 ≤ right.1

def fromItems (row : Option Row) : RevocationList :=
  (row.getD []).foldl (fun entries part => entries.set part.1 part.2) []

def jtis (entries : RevocationList) : List String := entries.map Prod.fst

end RevocationList

/-! ## The signer service and the agents -/

/-- `ι` are the clusters, each with an agent. -/
structure Revocation (K ι : Type) where
  time : ℚ
  issued : List (Token K)
  /-- The list in the memory of the signer service. -/
  revoked : RevocationList
  /-- `domain/revoked` in the domain's store. -/
  published : Option RevocationList.Row
  /-- `domain/revoked` in each cluster's store. -/
  held : ι → Option RevocationList.Row

namespace Revocation

variable {K ι : Type} [DecidableEq K] [DecidableEq ι]

inductive Event (K ι : Type) where
  | wait (seconds : ℚ)
  | issue (subject : String) (lifetime : ℚ) (jti : String)
  | revoke (token : Token K)
  | prune
  | publish
  | restart
  | sync (cluster : ι)

def start (time : ℚ) : Revocation K ι := ⟨time, [], [], none, fun _ => none⟩

def step (issuer : TokenIssuer K) (state : Revocation K ι) : Event K ι → Revocation K ι
  | .wait seconds => { state with time := state.time + |seconds| }
  | .issue subject lifetime jti =>
    -- `secrets.token_hex` does not repeat itself
    if jti ∈ state.issued.map fun token => token.payload.jti then state
    else { state with issued := issuer.issue subject lifetime state.time jti :: state.issued }
  | .revoke token =>
    -- nobody else makes a token that verifies under the issuer's keys
    if token ∈ state.issued then
      match token.verify issuer.keyset [] state.time tokenSkew with
      | .ok payload => { state with revoked := state.revoked.revoke payload }
      | .error _ => state
    else state
  | .prune => { state with revoked := state.revoked.prune state.time }
  | .publish => { state with published := some state.revoked.toItems }
  | .restart => { state with revoked := RevocationList.fromItems state.published }
  | .sync cluster =>
    match state.published with
    | some row => { state with held := Function.update state.held cluster (some row) }
    | none => state

/-- What a Node of the cluster says to a token, with the keys it holds. -/
def verifyAt (state : Revocation K ι) (cluster : ι) (keys : KeySet K) (token : Token K) : Except TokenError Payload :=
  token.verify keys (RevocationList.fromItems (state.held cluster)).jtis state.time tokenSkew

end Revocation

end EdgeVms.Domain
