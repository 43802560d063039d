import EdgeVms.Domain.Tokens
import EdgeVms.Python.Value

/-! # Grants of a Node

What subject may do what, and until when.  A Node asks nobody: the signature of a
token against the keys it holds, the revocations it holds, then its own table.
-/

namespace EdgeVms.Domain

open Python

/-- `GRANT_LIFETIME` -/
def grantLifetime : ℚ := 24 * 3600

structure Grant where
  subject : String
  capability : String
  /-- Every camera of the Node, if there is none. -/
  camera : Option Int
  validUntil : ℚ
  deriving DecidableEq

/-- One Node's table: each subject, capability and camera with the time until which it is granted. -/
structure NodeGrants where
  node : String
  grants : List ((String × String × Option Int) × ℚ)

namespace NodeGrants

/-- `grants[key] = until`: a key that is there keeps its place. -/
def put (key : String × String × Option Int) (until_ : ℚ) :
    List ((String × String × Option Int) × ℚ) → List ((String × String × Option Int) × ℚ)
  | [] => [(key, until_)]
  | entry :: rest => if entry.1 = key then (key, until_) :: rest else entry :: put key until_ rest

def grant (table : NodeGrants) (subject capability : String) (camera : Option Int) (validUntil : ℚ) : NodeGrants :=
  { table with grants := put (subject, capability, camera) validUntil table.grants }

def revoke (table : NodeGrants) (subject : String) : NodeGrants :=
  { table with grants := table.grants.filter fun entry => entry.1.1 ≠ subject }

def may (table : NodeGrants) (subject capability : String) (camera : Int) (now : ℚ) : Bool :=
  table.grants.any fun ((s, c, cam), until_) =>
    s = subject && (c = capability || c = "admin") && (cam = some camera || cam = none) && now < until_

/-- Replaced: what the domain has dropped is not renewed. -/
def renewFromDomain (table : NodeGrants) (renewals : List Grant) : NodeGrants :=
  { table with
    grants := renewals.foldl (fun grants g => put (g.subject, g.capability, g.camera) g.validUntil grants) [] }

/-- When a subject loses the Node, if a revoke cannot reach it. -/
def accessEnds (table : NodeGrants) (subject : String) (tokenExp : ℚ) : ℚ :=
  match (table.grants.filter fun entry => entry.1.1 = subject).map Prod.snd with
  | [] => tokenExp
  | first :: untils => min tokenExp (untils.foldl max first)

end NodeGrants

/-- The text of the exception. -/
def TokenError.text : TokenError → String
  | .unknownKey message | .badSignature message | .expired message | .revoked message => message

/-- What a Node's console runs. -/
structure NodeAuthoriser (K : Type) where
  grants : NodeGrants
  keyset : KeySet K
  revoked : List String

namespace NodeAuthoriser

variable {K : Type} [DecidableEq K]

def updateTrust (node : NodeAuthoriser K) (keyset : KeySet K) (revoked : List String) : NodeAuthoriser K :=
  { node with keyset := keyset, revoked := revoked }

def subject (node : NodeAuthoriser K) (token : Token K) (now : ℚ) : Except TokenError String :=
  Payload.sub <$> token.verify node.keyset node.revoked now tokenSkew

/-- The subject, or the text of the `PermissionError`.  The token is verified at one reading of the
clock, the grants are looked up at a later one. -/
def authorise (node : NodeAuthoriser K) (token : Token K) (capability : String) (camera : Int) (now lookup : ℚ) :
    Except String String :=
  match node.subject token now with
  | .error e => .error ("token refused: " ++ e.text)
  | .ok subject =>
    if node.grants.may subject capability camera lookup then .ok subject
    else .error (subject ++ " has no " ++ capability ++ " grant on camera " ++ toString camera ++ " at " ++
      node.grants.node)

end NodeAuthoriser

end EdgeVms.Domain
