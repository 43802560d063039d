import EdgeVms.Cluster.Config
import EdgeVms.Python.Json
import EdgeVms.Python.Sub
import EdgeVms.Python.Url
import Mathlib.Data.List.TakeWhile

/-! # The credential of a camera

It is kept apart from `rtsp_url`, encrypted, and joins it in the URL that GStreamer is
given.  What GStreamer says of that URL goes through `redact` before it is kept.
-/

namespace EdgeVms.Node

open Python Python.Url Cluster

/-! ## The console's validator -/

def schemes : List (List Char) := ["rtsp".toList, "rtsps".toList]

/-- `_credential_free` -/
def credentialFree (wellFormed : List Char → Bool) : Option String → Except Error (Option String)
  | none => .ok none
  | some v => do
    let p ← urlsplit wellFormed v.toList
    if p.scheme ∉ schemes ∨ '@' ∈ p.netloc ∨ p.netloc = [] then .error .valueError else .ok (some v)

/-! ## The column -/

structure ColumnKey where
  /-- `AESGCM.decrypt`: nonce, data, associated data. -/
  aead : List UInt8 → List UInt8 → List UInt8 → Except Error (List UInt8)

/-- The camera's id is associated data: a blob that was copied between rows does not open. -/
def ColumnKey.decrypt (key : ColumnKey) (blob : List UInt8) (cameraId : Int) : Except Error (List Char) := do
  let secret ← key.aead (blob.take 12) (blob.drop 12) (Json.encode (toString cameraId).toList)
  Json.decode secret

/-! ## The URL -/

/-- `parts` with what stands before the `@` of its netloc. -/
def withUserInfo (parts : SplitResult) (info : List Char) : List Char :=
  urlunsplit { parts with netloc := info ++ '@' :: parts.netloc }

def composeRtspUrl (wellFormed : List Char → Bool) (cam : CameraRow) (key : Option ColumnKey) :
    Except Error (List Char) :=
  let url := cam.fields.rtspUrl.toList
  match cam.fields.credUsername, cam.fields.credSecret, key with
  | some user, some blob, some key =>
    if user = "" ∨ blob = [] then .ok url
    else do
      let parts ← urlsplit wellFormed url
      let secret ← key.decrypt blob cam.id
      return withUserInfo parts (quote user.toList ++ ':' :: quote secret)
  | _, _, _ => .ok url

/-! ## `redact` -/

/-- `rtsps?://` -/
def leads : List (List Char) := ["rtsp://".toList, "rtsps://".toList]

/-- `[^/@\s]` -/
def inside (c : Char) : Bool := c ≠ '/' && c ≠ '@' && !Json.isBlank c

/-- The two parts of a match: the group, and what stands between it and the `@`. -/
structure UserInfo where
  lead : List Char
  info : List Char
  deriving DecidableEq

/-- `(rtsps?://)[^/@\s]+@` at the start of a text -/
def userInfo (text : List Char) : Option UserInfo :=
  match leads.find? (·.isPrefixOf text) with
  | none => none
  | some lead =>
    let rest := text.drop lead.length
    if rest.takeWhile inside ≠ [] ∧ (rest.dropWhile inside).head? = some '@' then
      some ⟨lead, rest.takeWhile inside⟩
    else none

/-- `***@` -/
def mask : List Char := "***@".toList

/-- All of a match: the lead, some characters, the `@`. -/
def UserInfo.whole (u : UserInfo) : List Char := u.lead ++ (u.info ++ ['@'])

structure UserInfo.Fits (u : UserInfo) : Prop where
  lead : u.lead ∈ leads
  some_ : u.info ≠ []
  inside : ∀ c ∈ u.info, inside c

theorem lead_of_find {text lead : List Char} (found : leads.find? (·.isPrefixOf text) = some lead) :
    lead ∈ leads ∧ lead <+: text := by
  have first : lead.isPrefixOf text := by simpa using List.find?_some found
  exact ⟨List.mem_of_find?_eq_some found, List.isPrefixOf_iff_prefix.mp first⟩

theorem find_lead {text lead : List Char} (one : lead ∈ leads) (within : lead <+: text) :
    leads.find? (·.isPrefixOf text) = some lead := by
  obtain ⟨rest, rfl⟩ := within
  have own (lead : List Char) : lead.isPrefixOf (lead ++ rest) := List.isPrefixOf_iff_prefix.mpr (List.prefix_append ..)
  simp only [leads, List.mem_cons, List.not_mem_nil, or_false] at one
  obtain rfl | rfl := one
  · exact List.find?_cons_of_pos (own _)
  · have other : ¬"rtsp://".toList.isPrefixOf ("rtsps://".toList ++ rest) :=
      fun same => Bool.false_ne_true same
    have later : ["rtsps://".toList].find? (·.isPrefixOf ("rtsps://".toList ++ rest)) = some "rtsps://".toList :=
      List.find?_cons_of_pos (own _)
    rw [leads, ← later]
    exact List.find?_cons_of_neg other

theorem userInfo_iff {text : List Char} {u : UserInfo} : userInfo text = some u ↔ u.Fits ∧ u.whole <+: text := by
  constructor
  · intro found
    unfold userInfo at found
    split at found
    next => cases found
    next lead first =>
      obtain ⟨one, rest, rfl⟩ := lead_of_find first
      rw [List.drop_left] at found
      dsimp only at found
      split at found
      next ends =>
        cases found
        obtain ⟨more, stops⟩ := List.head?_eq_some_iff.mp ends.2
        refine ⟨⟨one, ends.1, fun c member => List.mem_takeWhile_imp member⟩, more, ?_⟩
        rw [UserInfo.whole, List.append_assoc, List.append_assoc, List.singleton_append, ← stops,
          List.takeWhile_append_dropWhile]
      next => cases found
  · rintro ⟨fits, more, rfl⟩
    have stops : inside '@' = false := by decide
    have first : leads.find? (·.isPrefixOf (u.whole ++ more)) = some u.lead :=
      find_lead fits.lead (by rw [UserInfo.whole, List.append_assoc]; exact List.prefix_append ..)
    have rest : (u.whole ++ more).drop u.lead.length = u.info ++ '@' :: more := by
      rw [UserInfo.whole, List.append_assoc, List.drop_left, List.append_assoc, List.singleton_append]
    have held : (u.info ++ '@' :: more).takeWhile inside = u.info := by
      rw [List.takeWhile_append_of_pos fits.inside, List.takeWhile_cons_of_neg (by simp [stops]), List.append_nil]
    have left : (u.info ++ '@' :: more).dropWhile inside = '@' :: more := by
      rw [List.dropWhile_append_of_pos fits.inside, List.dropWhile_cons_of_neg (by simp [stops])]
    unfold userInfo
    rw [first]
    dsimp only
    rw [rest, held, left, if_pos ⟨fits.some_, rfl⟩]

/-- The pattern of `redact`, with `\1***@` for what it matches. -/
def credentials : Pattern Char where
  find text := (userInfo text).map fun u => (u.whole.length, u.lead ++ mask)
  takes {text n image} found := by
    obtain ⟨u, matched, rfl, rfl⟩ : ∃ u, userInfo text = some u ∧ u.whole.length = n ∧ u.lead ++ mask = image := by
      simpa using found
    have within := (userInfo_iff.mp matched).2
    exact ⟨by simp [UserInfo.whole], within.length_le⟩

def redact (text : List Char) : List Char := credentials.sub text

end EdgeVms.Node
