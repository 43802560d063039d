import EdgeVms.Domain.Signer

/-! # Where trust comes from

A key is vouched for by a live root, or by a certificate that a vouched key
signed.  `verify` takes a cross certificate at its word: it looks at neither its
signature nor its validity, so that anybody may bring a root of their own.
-/

namespace EdgeVms.Verified

open Domain

variable {K : Type} [DecidableEq K] {bundle : TrustBundle K} {cert : Certificate K} {cross : List (Certificate K)}
  {now skew : ℚ}

/-- Inside its validity, with the skew. -/
def InWindow (now skew : ℚ) (cert : Certificate K) : Prop :=
  cert.notValidBefore - skew ≤ now ∧ now ≤ cert.notValidAfter + skew

def Retired (now retireAt : ℚ) : Prop := retireAt ≠ 0 ∧ now ≥ retireAt

/-- The keys that a chain of signatures leads to from a live root. -/
inductive Vouched (bundle : TrustBundle K) (cross : List (Certificate K)) (now skew : ℚ) : K → Prop
  | root {root : Certificate K} {retireAt : ℚ} (member : (root, retireAt) ∈ bundle.roots)
      (live : ¬ Retired now retireAt) : Vouched bundle cross now skew root.publicKey
  | link {c : Certificate K} {key : K} (member : c ∈ cross) (signed : c.signature = some key)
      (valid : InWindow now skew c) (vouched : Vouched bundle cross now skew key) :
      Vouched bundle cross now skew c.publicKey

/-- A chain of valid signatures from the certificate to a live root. -/
def Trusted (bundle : TrustBundle K) (cross : List (Certificate K)) (now skew : ℚ) (cert : Certificate K) : Prop :=
  InWindow now skew cert ∧ ∃ key, cert.signature = some key ∧ Vouched bundle cross now skew key

/-- The cross certificate that `verify` takes for the issuer, when no root has its name. -/
def usedCross (bundle : TrustBundle K) (cert : Certificate K) (cross : List (Certificate K)) :
    Option (Certificate K) :=
  if (bundle.roots.find? fun entry => entry.1.subject.rfc4514 = cert.issuer.rfc4514).isNone then
    cross.find? fun c => c.subject.rfc4514 = cert.issuer.rfc4514
  else none

/-- An accepted certificate is trusted, and so is a cross certificate that was used for it. -/
def OnlyFromRoots (bundle : TrustBundle K) (cert : Certificate K) (now skew : ℚ) (cross : List (Certificate K)) :
    Prop :=
  ∀ cn, bundle.verify cert now skew cross = .ok cn →
    Trusted bundle cross now skew cert ∧
      ∀ c, usedCross bundle cert cross = some c → Trusted bundle cross now skew c

/-- What `verify` asks of the entry that has the issuer's name. -/
structure Issues (now skew : ℚ) (cert : Certificate K) (entry : Certificate K × ℚ) : Prop where
  live : ¬ Retired now entry.2
  signed : cert.signature = some entry.1.publicKey
  valid : InWindow now skew cert
  named : entry.1.subject.commonNames ≠ []

/-- The entry of a list that has the issuer's name. -/
def issuerIn (cert : Certificate K) (entries : List (Certificate K × ℚ)) : Option (Certificate K × ℚ) :=
  entries.find? fun entry => entry.1.subject.rfc4514 = cert.issuer.rfc4514

theorem verifyRounds_ok_iff {entries : List (Certificate K × ℚ)} :
    (∃ cn, TrustBundle.verifyRounds cert now skew entries = .ok cn) ↔
      ∃ entry, issuerIn cert entries = some entry ∧ Issues now skew cert entry := by
  induction entries with
  | nil => simp [TrustBundle.verifyRounds, issuerIn]
  | cons entry rest ih =>
    obtain ⟨root, retireAt⟩ := entry
    by_cases name : root.subject.rfc4514 = cert.issuer.rfc4514
    case neg =>
      rw [TrustBundle.verifyRounds, if_pos name, ih, issuerIn, issuerIn,
        List.find?_cons_of_neg (by simpa using name)]
    have found : issuerIn cert ((root, retireAt) :: rest) = some (root, retireAt) :=
      List.find?_cons_of_pos (by simpa using name)
    rw [TrustBundle.verifyRounds, if_neg (not_not.mpr name), found]
    -- the checks, in the order of the source
    constructor
    · rintro ⟨cn, accepted⟩
      refine ⟨_, rfl, ?_⟩
      split at accepted
      · cases accepted
      next live =>
        split at accepted
        · cases accepted
        next signed =>
          split at accepted
          · cases accepted
          next started =>
            split at accepted
            · cases accepted
            next unexpired =>
              refine ⟨live, not_not.mp signed, ⟨not_lt.mp started, not_lt.mp unexpired⟩, ?_⟩
              intro nameless
              dsimp only at nameless
              rw [nameless] at accepted
              cases accepted
    · rintro ⟨_, same, issues⟩
      cases same
      have live : ¬ (retireAt ≠ 0 ∧ now ≥ retireAt) := issues.live
      rw [if_neg live, if_neg (not_not.mpr issues.signed), if_neg (not_lt.mpr issues.valid.1),
        if_neg (not_lt.mpr issues.valid.2)]
      cases names : root.subject.commonNames with
      | nil => exact absurd names issues.named
      | cons cn others => exact ⟨cn, rfl⟩

omit [DecidableEq K] in
/-- `verify` looks for the issuer among the roots first, and then among the cross certificates. -/
theorem issuerIn_chain : issuerIn cert (bundle.roots ++
      (cross.filter fun c => c.subject.rfc4514 = cert.issuer.rfc4514).map fun c => (c, 0)) =
    (issuerIn cert bundle.roots).or ((usedCross bundle cert cross).map fun c => (c, 0)) := by
  have crosses : issuerIn cert ((cross.filter fun c => c.subject.rfc4514 = cert.issuer.rfc4514).map fun c => (c, 0)) =
      (cross.find? fun c => c.subject.rfc4514 = cert.issuer.rfc4514).map fun c => (c, 0) := by
    rw [issuerIn, List.find?_map, List.find?_filter]
    congr 2
    funext c
    simp
  rw [issuerIn, List.find?_append, usedCross]
  change (issuerIn cert bundle.roots).or (issuerIn cert _) = (issuerIn cert bundle.roots).or _
  cases found : issuerIn cert bundle.roots with
  | some entry => rfl
  | none =>
    rw [issuerIn] at found
    rw [crosses, found]
    rfl

/-- Acceptance, in terms of the one issuer that is looked at. -/
theorem verify_ok_iff : (∃ cn, bundle.verify cert now skew cross = .ok cn) ↔
    (∃ entry, issuerIn cert bundle.roots = some entry ∧ Issues now skew cert entry) ∨
      ∃ c, usedCross bundle cert cross = some c ∧ Issues now skew cert (c, 0) := by
  rw [TrustBundle.verify, verifyRounds_ok_iff, issuerIn_chain]
  cases found : issuerIn cert bundle.roots with
  | some entry =>
    have unused : usedCross bundle cert cross = none := by
      rw [issuerIn] at found
      rw [usedCross, found]
      rfl
    simp [unused]
  | none => simp

/-- Exactly when a cross certificate is used that is not itself trusted does `verify` accept what no
root vouches for. -/
theorem only_from_roots_iff : OnlyFromRoots bundle cert now skew cross ↔
    ∀ c, usedCross bundle cert cross = some c → Trusted bundle cross now skew c ∨
      cert.signature ≠ some c.publicKey ∨ ¬ InWindow now skew cert ∨ c.subject.commonNames = [] := by
  constructor
  · intro only c used
    by_contra unsound
    simp only [not_or, ne_eq, not_not] at unsound
    obtain ⟨untrusted, signed, valid, named⟩ := unsound
    have issues : Issues now skew cert (c, 0) := ⟨fun retired => retired.1 rfl, signed, valid, named⟩
    obtain ⟨cn, accepted⟩ := verify_ok_iff.mpr (.inr ⟨c, used, issues⟩)
    exact untrusted ((only cn accepted).2 c used)
  · intro sound cn accepted
    obtain ⟨entry, found, issues⟩ | ⟨c, used, issues⟩ := verify_ok_iff.mp ⟨cn, accepted⟩
    · have unused : usedCross bundle cert cross = none := by
        rw [issuerIn] at found
        rw [usedCross, found]
        rfl
      refine ⟨⟨issues.valid, _, issues.signed, .root (List.mem_of_find?_eq_some found) issues.live⟩, ?_⟩
      rw [unused]
      simp
    · have trusted : Trusted bundle cross now skew c := by
        obtain trusted | unsigned | invalid | nameless := sound c used
        · exact trusted
        · exact absurd issues.signed unsigned
        · exact absurd issues.valid invalid
        · exact absurd nameless issues.named
      have member : c ∈ cross := by
        rw [usedCross] at used
        split at used
        · exact List.mem_of_find?_eq_some used
        · cases used
      obtain ⟨valid, key, signed, vouched⟩ := trusted
      refine ⟨⟨issues.valid, _, issues.signed, .link member signed valid vouched⟩, fun c' same => ?_⟩
      rw [used] at same
      cases same
      exact ⟨valid, key, signed, vouched⟩

/-! ## A root of one's own -/

def rootName (cn : String) : Name := ⟨"CN=" ++ cn ++ ",O=customer", [cn]⟩

/-- The bundle of a peer that has the first root only. -/
def oldOnly : TrustBundle Nat :=
  TrustBundle.empty.add ⟨rootName "acme root g1", rootName "acme root g1", 0, 0, 315360000, some 0⟩ 0

/-- It names the next root and is signed by nobody. -/
def forgedCross : Certificate Nat := ⟨rootName "acme root g2", rootName "acme root g1", 1, 0, 0, none⟩

def forgedLeaf : Certificate Nat := ⟨rootName "SN-0004", rootName "acme root g2", 2, 0, 1000, some 1⟩

theorem oldOnly_vouches {key : Nat} (vouched : Vouched oldOnly [forgedCross] 500 300 key) : key = 0 := by
  cases vouched with
  | root member live =>
    obtain rfl := (Prod.ext_iff.mp (List.mem_singleton.mp member)).1
    rfl
  | link member signed valid vouched =>
    obtain rfl := List.mem_singleton.mp member
    cases signed

theorem forged_cross_accepted : ¬ ∀ (bundle : TrustBundle Nat) (cert : Certificate Nat) (now skew : ℚ)
    (cross : List (Certificate Nat)), OnlyFromRoots bundle cert now skew cross := by
  intro claim
  have accepted : oldOnly.verify forgedLeaf 500 300 [forgedCross] = .ok "acme root g2" := by decide +kernel
  obtain ⟨⟨-, key, signed, vouched⟩, -⟩ := claim oldOnly forgedLeaf 500 300 [forgedCross] _ accepted
  obtain rfl := oldOnly_vouches vouched
  cases signed

end EdgeVms.Verified
