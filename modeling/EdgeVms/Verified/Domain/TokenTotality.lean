import EdgeVms.Domain.TokenText

/-! # Malformed tokens

A token that cannot be read is refused when what is wrong with it is that it has not
three parts of base64 with JSON in the first two.  JSON of another shape than the
issuer's is read on, until an exception that no caller catches.
-/

namespace EdgeVms.Verified.TokenTotality

open Domain Domain.TokenText Domain.NodeAuthoriser Python Python.Raised

variable {library : TokenLibrary} {keys : KeySet (List UInt8)} {revoked : List String} {now : ℚ}

/-- A key that is usable now, of the id the header names, made the signature over the two parts. -/
def Signed (library : TokenLibrary) (keys : KeySet (List UInt8)) (now : ℚ) (token : String) (payload : Value) :
    Prop :=
  ∃ parts kid key signature, TokenText.parts library token = .ok parts ∧ parts.payload = payload ∧
    kidOf parts.header = .ok (.str kid) ∧ keys.usable kid.string now = true ∧
    keys.keys.get? kid.string = some key ∧ unb64 parts.signature = .ok signature ∧
    library.signed key (Json.encode parts.message.toList) signature = true

/-- `verify` returns a signed payload or raises a `TokenError`, and a Node with these keys and revocations
returns a subject or raises `PermissionError`, whatever its grants are. -/
structure Total (library : TokenLibrary) (keys : KeySet (List UInt8)) (revoked : List String) (token : String)
    (now : ℚ) : Prop where
  verify : (∃ payload, TokenText.verify library token keys revoked now tokenSkew = .ok payload ∧
    Signed library keys now token payload) ∨
    ∃ e, TokenText.verify library token keys revoked now tokenSkew = .error (.own e)
  authorise : ∀ grants capability camera lookup,
    (∃ subject, authoriseText ⟨grants, keys, revoked⟩ library token capability camera now lookup = .ok subject) ∨
    ∃ text, authoriseText ⟨grants, keys, revoked⟩ library token capability camera now lookup = .error (.own text)

/-! ## What a token must be -/

def Hashable : Value → Prop
  | .list _ | .dict _ => False
  | _ => True

/-- A number that a float can be added to. -/
def Numeric : Value → Prop
  | .bool _ | .float _ => True
  | .int n => n.natAbs < floatLimit
  | _ => False

def HasClaim (payload : Value) (name : String) (value : Value) : Prop :=
  ∃ entries, payload = .dict entries ∧ Dict.get? entries name = some value

/-- The payload has a time, and `next` holds for it. -/
def HasTime (payload : Value) (name : String) (next : Floating → Prop) : Prop :=
  ∃ value, HasClaim payload name value ∧ Numeric value ∧ ∀ x, operand value = .ok x → next x

/-- An object with `exp`; if it is not expired, with `iat`; if that is not in the future, with `jti`; and
if that is not revoked, with what `next` asks for. -/
def PayloadFits (revoked : List String) (now : ℚ) (payload : Value) (next : Value → Prop) : Prop :=
  HasTime payload "exp" fun exp => (exp.add tokenSkew).lt (.finite now) = false →
    HasTime payload "iat" fun iat => (Floating.finite now).lt (iat.add (-tokenSkew)) = false →
      ∃ jti, HasClaim payload "jti" jti ∧ Hashable jti ∧ (isIn revoked jti = .ok false → next payload)

/-- An object with a hashable `kid`; if it names a usable key, that key is of 32 bytes and the last part
is base64; and if the signature verifies, the payload fits. -/
def PartsFit (library : TokenLibrary) (keys : KeySet (List UInt8)) (now : ℚ) (next : Value → Prop)
    (parts : Parts) : Prop :=
  ∃ header, parts.header = .dict header ∧ Hashable (Dict.getD header "kid" (.str "")) ∧
    ∀ kid key, Dict.getD header "kid" (.str "") = .str kid → keys.usable kid.string now = true →
      keys.keys.get? kid.string = some key → key.length = 32 ∧ ∃ signature, unb64 parts.signature = .ok signature ∧
        (library.signed key (Json.encode parts.message.toList) signature = true → next parts.payload)

/-- What is not three parts, or not base64, or not JSON is refused; a nesting too deep for `json.loads` is
not; and what is read must fit. -/
def TokenFits (library : TokenLibrary) (keys : KeySet (List UInt8)) (revoked : List String) (token : String)
    (now : ℚ) : Prop :=
  (∀ e, parts library token = .error e → e = .valueError) ∧
    ∀ read, parts library token = .ok read → PartsFit library keys now
      (fun payload => PayloadFits revoked now payload fun payload => ∃ subject, HasClaim payload "sub" subject) read

/-! ## Each function -/

theorem claim_ok_iff {name : String} {payload value : Value} :
    claim name payload = .ok value ↔ HasClaim payload name value := by
  cases payload with
  | dict entries =>
    cases found : Dict.get? entries name with
    | none => simp [claim, HasClaim, Dict.item, found]
    | some other => simp [claim, HasClaim, Dict.item, found]
  | _ => simp [claim, HasClaim]

theorem operand_ok_iff {value : Value} : (∃ x, operand value = .ok x) ↔ Numeric value := by
  cases value with
  | int n =>
    by_cases fits : n.natAbs < floatLimit
    · simp [operand, Numeric, fits]
    · simp [operand, Numeric, fits]
  | _ => simp [operand, Numeric]

theorem time_iff {payload : Value} {name : String} {next : Floating → Prop} :
    (∃ x, (claim name payload >>= operand) = .ok x ∧ next x) ↔ HasTime payload name next := by
  constructor
  · rintro ⟨x, read, holds⟩
    obtain ⟨value, found, converted⟩ := bind_eq_ok.mp read
    refine ⟨value, claim_ok_iff.mp found, operand_ok_iff.mp ⟨x, converted⟩, ?_⟩
    intro y same
    rw [converted] at same
    cases same
    exact holds
  · rintro ⟨value, found, numeric, holds⟩
    obtain ⟨x, converted⟩ := operand_ok_iff.mpr numeric
    exact ⟨x, bind_eq_ok.mpr ⟨value, claim_ok_iff.mpr found, converted⟩, holds x converted⟩

theorem isIn_iff {names : List String} {value : Value} {next : Prop} :
    (∃ found, isIn names value = .ok found ∧ (found = false → next)) ↔
      Hashable value ∧ (isIn names value = .ok false → next) := by
  cases value with
  | list items => simp [isIn, Hashable]
  | dict entries => simp [isIn, Hashable]
  | _ => simp [isIn, Hashable]

theorem kidOf_iff {header : Value} {next : Value → Prop} :
    (∃ kid, kidOf header = .ok kid ∧ next kid) ↔
      ∃ entries, header = .dict entries ∧ next (Dict.getD entries "kid" (.str "")) := by
  cases header with
  | dict entries => simp [kidOf]
  | _ => simp [kidOf]

/-- Only a string names a key. -/
theorem keyOf_iff {kid : Value} {next : Option (List UInt8) → Prop} (unnamed : next none) :
    (∃ found, keyOf keys now kid = .ok found ∧ next found) ↔ Hashable kid ∧ ∀ text key, kid = .str text →
      keys.usable text.string now = true → keys.keys.get? text.string = some key → next (some key) := by
  cases kid with
  | str text =>
    constructor
    · rintro ⟨found, same, holds⟩
      refine ⟨trivial, ?_⟩
      intro text' key text_eq usable named
      cases text_eq
      rw [keyOf, if_pos usable, named] at same
      cases same
      exact holds
    · rintro ⟨-, holds⟩
      refine ⟨_, rfl, ?_⟩
      split
      next usable =>
        cases named : keys.keys.get? text.string with
        | none => exact unnamed
        | some key => exact holds text key rfl usable named
      next => exact unnamed
  | list items => simp [keyOf, Hashable]
  | dict entries => simp [keyOf, Hashable]
  | _ => simp [keyOf, Hashable, unnamed]

theorem verifies_iff {key : List UInt8} {parts : Parts} {next : Bool → Prop} :
    (∃ signed, verifies library key parts = .ok signed ∧ next signed) ↔ key.length = 32 ∧
      ∃ signature, unb64 parts.signature = .ok signature ∧
        next (library.signed key (Json.encode parts.message.toList) signature) := by
  rw [verifies]
  split
  next other => simp [other]
  next whole =>
    simp only [map_eq_ok, not_not.mp whole, true_and]
    constructor
    · rintro ⟨_, ⟨signature, decoded, rfl⟩, holds⟩
      exact ⟨signature, decoded, holds⟩
    · rintro ⟨signature, decoded, holds⟩
      exact ⟨_, ⟨signature, decoded, rfl⟩, holds⟩

/-! ## What is raised -/

theorem within_current {payload : Value} {next : Value → Prop} :
    Within (current revoked now tokenSkew payload) next ↔ PayloadFits revoked now payload next := by
  have returned : Within (pure payload : Except (Raised TokenError) Value) next ↔ next payload := within_ok
  simp only [current, within_bind, within_lift, within_guard, time_iff, PayloadFits, returned, isIn_iff, claim_ok_iff]

/-- Of the exceptions of the reading only `ValueError` is caught. -/
theorem within_parts {token : String} {next : Parts → Prop} :
    Within ((parts library token).mapError notAToken) next ↔
      (∀ e, parts library token = .error e → e = .valueError) ∧ ∀ read, parts library token = .ok read → next read := by
  cases parts library token with
  | ok read =>
    have passed : (Except.ok read : Except Error Parts).mapError notAToken = .ok read := rfl
    simp [passed]
  | error e =>
    have raised : (Except.error e : Except Error Parts).mapError notAToken = .error (notAToken e) := rfl
    rw [raised]
    cases e <;> simp [notAToken]

theorem within_verify {token : String} {next : Value → Prop} :
    Within (verify library token keys revoked now tokenSkew) next ↔
      (∀ e, parts library token = .error e → e = .valueError) ∧
        ∀ read, parts library token = .ok read →
          PartsFit library keys now (fun payload => PayloadFits revoked now payload next) read := by
  simp only [verify, within_bind, within_parts, within_lift, kidOf_iff, PartsFit]
  refine and_congr Iff.rfl (forall_congr' fun read => imp_congr Iff.rfl ?_)
  refine exists_congr fun header => and_congr Iff.rfl ?_
  rw [keyOf_iff within_own]
  simp only [within_bind, within_lift, verifies_iff, within_require, within_current]

/-! ## What is returned -/

theorem current_eq {payload returned : Value} {skew : ℚ} (ok : current revoked now skew payload = .ok returned) :
    returned = payload := by
  obtain ⟨exp, -, ok⟩ := bind_eq_ok.mp ok
  split at ok
  next => cases ok
  next =>
    obtain ⟨iat, -, ok⟩ := bind_eq_ok.mp ok
    split at ok
    next => cases ok
    next =>
      obtain ⟨jti, -, ok⟩ := bind_eq_ok.mp ok
      obtain ⟨listed, -, ok⟩ := bind_eq_ok.mp ok
      split at ok
      next => cases ok
      next =>
        cases ok
        rfl

theorem keyOf_some {kid : Value} {key : List UInt8} (found : keyOf keys now kid = .ok (some key)) :
    ∃ text, kid = .str text ∧ keys.usable text.string now = true ∧ keys.keys.get? text.string = some key := by
  cases kid with
  | str text =>
    rw [keyOf] at found
    split at found
    next usable => exact ⟨text, rfl, usable, Except.ok.inj found⟩
    next => cases found
  | _ => cases found

theorem signed_of_verify {token : String} {skew : ℚ} {payload : Value}
    (returned : verify library token keys revoked now skew = .ok payload) : Signed library keys now token payload := by
  rw [verify] at returned
  obtain ⟨read, opened, returned⟩ := bind_eq_ok.mp returned
  obtain ⟨kid, named, returned⟩ := bind_eq_ok.mp returned
  obtain ⟨found, looked, returned⟩ := bind_eq_ok.mp returned
  cases found with
  | none => cases returned
  | some key =>
    obtain ⟨text, rfl, usable, trusted⟩ := keyOf_some (lift_eq_ok.mp looked)
    obtain ⟨signed, checked, returned⟩ := bind_eq_ok.mp returned
    split at returned
    next verified =>
      obtain ⟨-, signature, decoded, same⟩ := verifies_iff.mp ⟨signed, lift_eq_ok.mp checked, rfl⟩
      exact ⟨read, text, key, signature, mapError_eq_ok.mp opened, (current_eq returned).symm, lift_eq_ok.mp named,
        usable, trusted, decoded, same.symm.trans verified⟩
    next => cases returned

theorem within_subject {token : String} {grants : NodeGrants} :
    Within (subjectOfText ⟨grants, keys, revoked⟩ library token now) (fun _ => True) ↔
      TokenFits library keys revoked token now := by
  simp only [subjectOfText, within_bind, within_lift, within_verify, and_true, claim_ok_iff]
  rfl

theorem within_authorise {node : NodeAuthoriser (List UInt8)} {token capability : String} {camera : Int} {lookup : ℚ} :
    Within (authoriseText node library token capability camera now lookup) (fun _ => True) ↔
      Within (subjectOfText node library token now) fun _ => True := by
  rw [authoriseText]
  cases subjectOfText node library token now with
  | ok subject =>
    dsimp only
    split
    next => simp
    next => simp
  | error e => cases e <;> simp

/-- Verification is total exactly for the tokens that fit. -/
theorem total_iff (library : TokenLibrary) (keys : KeySet (List UInt8)) (revoked : List String) (token : String)
    (now : ℚ) : Total library keys revoked token now ↔ TokenFits library keys revoked token now := by
  constructor
  · intro total
    have authorised :=
      (within_iff.mpr ((total.authorise ⟨"", []⟩ "" 0 0).imp_left fun ⟨subject, same⟩ => ⟨subject, same, trivial⟩))
    exact within_subject.mp (within_authorise.mp authorised)
  · intro fits
    have subject : ∀ grants, Within (subjectOfText ⟨grants, keys, revoked⟩ library token now) fun _ => True :=
      fun grants => within_subject.mpr fits
    constructor
    · have verified := (within_bind.mp (subject ⟨"", []⟩)).caught
      exact within_iff.mp ⟨verified, fun payload returned => signed_of_verify returned⟩
    · intro grants capability camera lookup
      obtain ⟨who, same, -⟩ | refused := within_iff.mp (within_authorise.mpr (subject grants))
      · exact .inl ⟨who, same⟩
      · exact .inr refused

/-! ## A header that is no object -/

/-- JSON in UTF-8, and no signature that verifies. -/
def utf8Library : TokenLibrary := ⟨fun bytes => Json.decode bytes >>= Json.loads, fun _ _ _ => false⟩

/-- `[].{}.` -/
theorem list_header_escapes : ¬Total utf8Library ⟨"k1", [], []⟩ [] "W10.e30." 0 := by
  intro total
  have raised : verify utf8Library "W10.e30." ⟨"k1", [], []⟩ [] 0 tokenSkew = .error (.other .attributeError) := by
    have three : split '.' "W10.e30." = ["W10", "e30", ""] := by decide +kernel
    have header : (unb64 "W10" >>= utf8Library.loads) = .ok (.list []) := rfl
    have payload : (unb64 "e30" >>= utf8Library.loads) = .ok (.dict []) := rfl
    rw [verify, parts, three]
    dsimp only
    rw [header, payload]
    rfl
  obtain ⟨payload, returned, -⟩ | ⟨e, refused⟩ := total.verify
  · rw [raised] at returned
    cases returned
  · rw [raised] at refused
    cases refused

end EdgeVms.Verified.TokenTotality
