import EdgeVms.Domain.Grants
import EdgeVms.Python.Base64
import EdgeVms.Python.Json
import EdgeVms.Python.Raised

/-! # The text of a token

A caller sends a string.  Verification splits it, reads two of its parts as JSON and
the third as a signature, and looks claims up in what it has read; each of these has
exceptions of its own.
-/

namespace EdgeVms.Domain

open Python

/-- `json.loads` of bytes, in any encoding and to any depth of nesting, and the check of an Ed25519
signature over a message under a public key. -/
structure TokenLibrary where
  loads : List UInt8 → Except Error Value
  signed : List UInt8 → List UInt8 → List UInt8 → Bool

namespace TokenText

/-- The padding that was cut off is put back. -/
def unb64 (s : String) : Except Error (List UInt8) :=
  Base64.urlsafeDecode (s ++ String.ofList (List.replicate ((4 - s.length % 4) % 4) '='))

/-- What is in a token, as it is before anything is checked. -/
structure Parts where
  message : String
  signature : String
  header : Value
  payload : Value

def parts (library : TokenLibrary) (token : String) : Except Error Parts :=
  match split '.' token with
  | [h, p, s] => do
    let header ← unb64 h >>= library.loads
    let payload ← unb64 p >>= library.loads
    return ⟨h ++ "." ++ p, s, header, payload⟩
  | _ => .error .valueError

/-- `except (ValueError, json.JSONDecodeError)` -/
def notAToken : Error → Raised TokenError
  | .valueError => .own (.badSignature "not a token")
  | e => .other e

/-- `header.get("kid", "")` -/
def kidOf : Value → Except Error Value
  | .dict header => .ok (Dict.getD header "kid" (.str ""))
  | _ => .error .attributeError

/-- `value in names`: the value is hashed. -/
def isIn (names : List String) : Value → Except Error Bool
  | .list _ | .dict _ => .error .typeError
  | value => .ok (names.any value.equals)

/-- `keys.keys[kid]`, if `keys.usable(kid, now)`. -/
def keyOf (keys : KeySet (List UInt8)) (now : ℚ) : Value → Except Error (Option (List UInt8))
  | .list _ | .dict _ => .error .typeError
  | .str kid => .ok (if keys.usable kid.string now then keys.keys.get? kid.string else none)
  | _ => .ok none

/-- `Ed25519PublicKey.from_public_bytes(key).verify(_unb64(s), message)` -/
def verifies (library : TokenLibrary) (key : List UInt8) (parts : Parts) : Except Error Bool :=
  if key.length ≠ 32 then .error .valueError
  else library.signed key (Json.encode parts.message.toList) <$> unb64 parts.signature

/-- `payload[name]` -/
def claim (name : String) : Value → Except Error Value
  | .dict payload => Dict.item payload name
  | _ => .error .typeError

/-- The integers that have no float beside them: from half a step above the greatest float. -/
def floatLimit : Nat := 2 ^ 1024 - 2 ^ 970

/-- A value as it is added to a float. -/
def operand : Value → Except Error Floating
  | .bool value => .ok (.finite (if value then 1 else 0))
  | .int value => if value.natAbs < floatLimit then .ok (.finite value) else .error .overflowError
  | .float x => .ok x
  | _ => .error .typeError

/-- `f"{x:.0f}"` -/
def fixedText : Floating → String
  | .finite x => fixed x
  | x => x.text

/-- The checks of the claims, in their order. -/
def current (revoked : List String) (now skew : ℚ) (payload : Value) : Except (Raised TokenError) Value := do
  let exp ← Raised.lift (claim "exp" payload >>= operand)
  if (exp.add skew).lt (.finite now) then
    .error (.own (.expired ("expired " ++ fixedText (Json.negated (exp.add (-now))) ++ "s ago")))
  else do
    let iat ← Raised.lift (claim "iat" payload >>= operand)
    if (Floating.finite now).lt (iat.add (-skew)) then
      .error (.own (.badSignature ("issued " ++ fixedText (iat.add (-now)) ++ "s in the future — clock skew")))
    else do
      let jti ← Raised.lift (claim "jti" payload)
      let listed ← Raised.lift (isIn revoked jti)
      if listed then .error (.own (.revoked jti.text.string)) else return payload

/-- Offline: the payload, unless the token is not to be trusted now. -/
def verify (library : TokenLibrary) (token : String) (keys : KeySet (List UInt8)) (revoked : List String)
    (now skew : ℚ) : Except (Raised TokenError) Value := do
  let parts ← (parts library token).mapError notAToken
  let kid ← Raised.lift (kidOf parts.header)
  match ← Raised.lift (keyOf keys now kid) with
  | none => .error (.own (.unknownKey ("kid " ++ kid.repr ++ " is not in the trusted set (or retired)")))
  | some key => do
    let signed ← Raised.lift (verifies library key parts)
    if signed then current revoked now skew parts.payload
    else .error (.own (.badSignature "signature does not verify"))

end TokenText

namespace NodeAuthoriser

open TokenText

/-- Of a subject that is not a string the table has no grant. -/
def mayValue (grants : NodeGrants) (subject : Value) (capability : String) (camera : Int) (now : ℚ) : Bool :=
  match subject with
  | .str subject => grants.may subject.string capability camera now
  | _ => false

def subjectOfText (node : NodeAuthoriser (List UInt8)) (library : TokenLibrary) (token : String) (now : ℚ) :
    Except (Raised TokenError) Value := do
  let payload ← verify library token node.keyset node.revoked now tokenSkew
  Raised.lift (claim "sub" payload)

/-- The subject, or a `PermissionError` with its text, or what is not a `TokenError`. -/
def authoriseText (node : NodeAuthoriser (List UInt8)) (library : TokenLibrary) (token capability : String)
    (camera : Int) (now lookup : ℚ) : Except (Raised String) Value :=
  match node.subjectOfText library token now with
  | .error (.own e) => .error (.own ("token refused: " ++ e.text))
  | .error (.other e) => .error (.other e)
  | .ok subject =>
    if mayValue node.grants subject capability camera lookup then .ok subject
    else .error (.own (subject.text.string ++ " has no " ++ capability ++ " grant on camera " ++ toString camera ++
      " at " ++ node.grants.node))

end NodeAuthoriser

end EdgeVms.Domain
