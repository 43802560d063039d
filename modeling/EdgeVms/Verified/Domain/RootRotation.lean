import EdgeVms.Domain.Rotation
import EdgeVms.Process.Run
import Mathlib.Tactic.Linarith

/-! # Does a rotation leave a holder behind?

A certificate is never used for longer than its lifetime less the margin, and one
check more; so a root that outlives its rotation by that much outlives every
certificate it signed.
-/

namespace EdgeVms.Verified

open Process Python Domain

namespace RootRotation

variable {K : Type} {kind : Kind} {period : ℚ}

/-! ## Names -/

theorem rootName_inj {domain org : String} {g g' : Int}
    (same : (nameOf (Signer.rootCn domain g) org).rfc4514 = (nameOf (Signer.rootCn domain g') org).rfc4514) :
    g = g' := by
  have lists := congrArg String.toList same
  simp only [nameOf, Signer.rootCn, String.toList_append, List.append_assoc, List.append_cancel_left_eq] at lists
  have numbers := List.append_cancel_right lists
  exact toString_inj (String.toList_inj.mp numbers)

/-! ## Bundles -/

theorem mem_setRoot_self (root : Certificate K) (retireAt : ℚ) (roots : List (Certificate K × ℚ)) :
    (root, retireAt) ∈ TrustBundle.setRoot root retireAt roots := by
  induction roots with
  | nil => exact .head _
  | cons entry rest ih =>
    unfold TrustBundle.setRoot
    split
    · exact .head _
    · exact .tail _ ih

theorem mem_setRoot_other {root : Certificate K} (retireAt : ℚ) {roots : List (Certificate K × ℚ)}
    {entry : Certificate K × ℚ} (member : entry ∈ roots) (other : entry.1.subject.rfc4514 ≠ root.subject.rfc4514) :
    entry ∈ TrustBundle.setRoot root retireAt roots := by
  induction roots with
  | nil => cases member
  | cons first rest ih =>
    unfold TrustBundle.setRoot
    cases member with
    | head => rw [if_neg other]; exact .head _
    | tail _ later =>
      split
      · exact .tail _ later
      · exact .tail _ (ih later)

theorem of_mem_setRoot {root : Certificate K} {retireAt : ℚ} {roots : List (Certificate K × ℚ)}
    {entry : Certificate K × ℚ} (member : entry ∈ TrustBundle.setRoot root retireAt roots) :
    entry = (root, retireAt) ∨ entry ∈ roots := by
  induction roots with
  | nil => exact .inl (List.mem_singleton.mp member)
  | cons first rest ih =>
    unfold TrustBundle.setRoot at member
    split at member
    · obtain here | later := List.mem_cons.mp member
      · exact .inl here
      · exact .inr (.tail _ later)
    · obtain here | later := List.mem_cons.mp member
      · exact .inr (here ▸ .head _)
      · exact (ih later).imp id (.tail _)

/-- Under its name a root is alone in its bundle. -/
theorem eq_of_name {bundle : TrustBundle K} {entry entry' : Certificate K × ℚ} (member : entry ∈ bundle.roots)
    (member' : entry' ∈ bundle.roots) (same : entry.1.subject.rfc4514 = entry'.1.subject.rfc4514) : entry = entry' :=
  List.inj_on_of_nodup_map bundle.distinct member member' same

variable [DecidableEq K]

/-- The root that a certificate names decides. -/
theorem verifyRounds_root {cert root : Certificate K} {retireAt now skew : ℚ} {roots rest : List (Certificate K × ℚ)}
    (distinct : (roots.map fun entry => entry.1.subject.rfc4514).Nodup) (member : (root, retireAt) ∈ roots)
    (issuer : cert.issuer = root.subject) :
    TrustBundle.verifyRounds cert now skew (roots ++ rest) =
      TrustBundle.verifyRounds cert now skew [(root, retireAt)] := by
  induction roots with
  | nil => cases member
  | cons first others ih =>
    obtain ⟨fresh, distinct⟩ := List.nodup_cons.mp distinct
    cases member with
    | head =>
      rw [List.cons_append]
      unfold TrustBundle.verifyRounds
      rw [issuer, if_neg (not_not.mpr rfl), if_neg (not_not.mpr rfl)]
    | tail _ later =>
      have other : first.1.subject.rfc4514 ≠ cert.issuer.rfc4514 := by
        rw [issuer]
        exact fun same => fresh (List.mem_map.mpr ⟨_, later, same.symm⟩)
      rw [List.cons_append, TrustBundle.verifyRounds, if_pos other]
      exact ih distinct later

theorem verify_ok {bundle : TrustBundle K} {cert root : Certificate K} {retireAt now skew : ℚ} {cn : String}
    {cns : List String} (member : (root, retireAt) ∈ bundle.roots) (issuer : cert.issuer = root.subject)
    (named : root.subject.commonNames = cn :: cns) (signed : cert.signature = some root.publicKey)
    (current : retireAt = 0 ∨ now < retireAt) (begun : cert.notValidBefore - skew ≤ now)
    (lasts : now ≤ cert.notValidAfter + skew) : bundle.verify cert now skew [] = .ok cn := by
  unfold TrustBundle.verify
  rw [verifyRounds_root bundle.distinct member issuer, TrustBundle.verifyRounds, issuer, if_neg (not_not.mpr rfl),
    if_neg, if_neg (not_not.mpr signed), if_neg (not_lt.mpr begun), if_neg (not_lt.mpr lasts), named]
  rintro ⟨retires, late⟩
  obtain never | early := current
  · exact retires never
  · exact absurd early (not_lt.mpr late)

/-! ## A holder that asks in time -/

/-- The time for which a certificate is in use at most. -/
def inUse (kind : Kind) (period : ℚ) : ℚ := kind.lifetime - kind.margin + period

/-- The clock does not go back, the holder looks once in each period, and a rotation overlaps for longer than a
certificate is in use. -/
def Timely (kind : Kind) (period : ℚ) (state : Holding K) (event : ℚ × Holding.Event K) : Prop :=
  state.clock ≤ event.1 ∧ (state.cert.isSome → event.1 ≤ state.checked + period) ∧
    match event.2 with
    | .rotate overlap _ => inUse kind period < overlap
    | _ => True

instance (kind : Kind) (period : ℚ) (state : Holding K) (event : ℚ × Holding.Event K) :
    Decidable (Timely kind period state event) := by
  obtain ⟨now, event⟩ := event
  unfold Timely
  cases event <;> infer_instance

/-- The certificate's root is in the bundle, for longer than the certificate is in use. -/
structure Held (kind : Kind) (period : ℚ) (state : Holding K) (cert : Certificate K) (issuedAt : ℚ)
    (entry : Certificate K × ℚ) : Prop where
  listed : entry ∈ state.bundle.roots
  issuer : cert.issuer = entry.1.subject
  signed : cert.signature = some entry.1.publicKey
  before : cert.notValidBefore = utc (issuedAt - 60)
  after : cert.notValidAfter = utc (issuedAt + kind.lifetime)
  since : issuedAt ≤ state.checked
  until_ : state.checked ≤ state.clock
  outlives : entry.2 = 0 ∨ issuedAt + inUse kind period < entry.2
  looked : state.checked = issuedAt ∨ state.checked < cert.notValidAfter - kind.margin

structure Trusted (kind : Kind) (period : ℚ) (state : Holding K) : Prop where
  current : (state.signer.root.cert, 0) ∈ state.bundle.roots
  key : state.signer.root.cert.publicKey = state.signer.root.key
  subject : state.signer.root.cert.subject =
    nameOf (Signer.rootCn state.signer.domain state.signer.generation) state.signer.org
  names : ∀ entry ∈ state.bundle.roots, ∃ g ≤ state.signer.generation,
    entry.1.subject = nameOf (Signer.rootCn state.signer.domain g) state.signer.org
  held : ∀ cert, state.cert = some cert → ∃ issuedAt entry, Held kind period state cert issuedAt entry

omit [DecidableEq K] in
theorem trusted_start (domain org : String) (time : ℚ) (key tokenKey : K) (kid : String) :
    Trusted kind period (Holding.start domain org time key tokenKey kid) where
  current := .head _
  key := rfl
  subject := rfl
  names entry member := by
    obtain rfl := List.mem_singleton.mp member
    exact ⟨1, le_refl _, rfl⟩
  held cert none_ := by cases none_

omit [DecidableEq K] in
theorem trusted_rotate {state : Holding K} (trusted : Trusted kind period state) {now overlap : ℚ} {key : K}
    (timely : Timely kind period state (now, .rotate overlap key)) :
    Trusted kind period (Holding.step kind state (now, .rotate overlap key)) := by
  obtain ⟨forward, -, long⟩ := timely
  let old := state.signer.root.cert
  let new := (state.signer.withNewRoot now key).root.cert
  have newName : new.subject = nameOf (Signer.rootCn state.signer.domain (state.signer.generation + 1))
      state.signer.org := rfl
  have named_new {g : Int} {name : Name} (known : g ≤ state.signer.generation)
      (named : name = nameOf (Signer.rootCn state.signer.domain g) state.signer.org) :
      name.rfc4514 ≠ new.subject.rfc4514 := by
    intro same
    rw [named, newName] at same
    have := rootName_inj same
    omega
  have oldOther : old.subject.rfc4514 ≠ new.subject.rfc4514 := named_new (le_refl _) trusted.subject
  have grows : state.signer.generation ≤ state.signer.generation + 1 := by omega
  refine ⟨?_, rfl, rfl, ?_, ?_⟩
  · exact mem_setRoot_other _ (mem_setRoot_self new 0 _) oldOther.symm
  · intro entry member
    obtain rfl | earlier := of_mem_setRoot member
    · exact ⟨state.signer.generation, grows, trusted.subject⟩
    · obtain rfl | earlier := of_mem_setRoot earlier
      · exact ⟨state.signer.generation + 1, le_refl _, newName⟩
      · obtain ⟨g, known, named⟩ := trusted.names entry earlier
        exact ⟨g, le_trans known grows, named⟩
  · intro cert holds
    obtain ⟨issuedAt, entry, held⟩ := trusted.held cert holds
    have notNew : entry.1.subject.rfc4514 ≠ new.subject.rfc4514 := by
      obtain ⟨g, known, named⟩ := trusted.names entry held.listed
      exact named_new known named
    by_cases ofOld : entry.1.subject.rfc4514 = old.subject.rfc4514
    · -- its root retires, but only after the certificate is out of use
      obtain rfl := eq_of_name held.listed trusted.current ofOld
      refine ⟨issuedAt, (old, now + overlap), { held with
        listed := mem_setRoot_self _ _ _
        until_ := le_trans held.until_ forward
        outlives := .inr ?_ }⟩
      have lookedBefore := held.since
      have checkedBefore := held.until_
      dsimp only
      linarith
    · refine ⟨issuedAt, entry, { held with
        listed := mem_setRoot_other _ (mem_setRoot_other _ held.listed notNew) ofOld
        until_ := le_trans held.until_ forward }⟩

omit [DecidableEq K] in
/-- A certificate that the current root has just signed. -/
theorem held_issue {state : Holding K} (trusted : Trusted kind period state) {now : ℚ} {cn : String} {publicKey : K} :
    Held kind period
      { state with clock := now, cert := some (state.signer.issue cn kind publicKey none now), checked := now }
      (state.signer.issue cn kind publicKey none now) now (state.signer.root.cert, 0) where
  listed := trusted.current
  issuer := rfl
  signed := congrArg some trusted.key.symm
  before := rfl
  after := rfl
  since := le_refl _
  until_ := le_refl _
  outlives := .inl rfl
  looked := .inl rfl

omit [DecidableEq K] in
theorem trusted_issue {state : Holding K} (trusted : Trusted kind period state) {now : ℚ} {cn : String}
    {publicKey : K} :
    Trusted kind period
      { state with clock := now, cert := some (state.signer.issue cn kind publicKey none now), checked := now } where
  current := trusted.current
  key := trusted.key
  subject := trusted.subject
  names := trusted.names
  held cert holds := by
    cases holds
    exact ⟨now, _, held_issue trusted⟩

omit [DecidableEq K] in
/-- Later, and with nothing else changed. -/
theorem trusted_later {state : Holding K} (trusted : Trusted kind period state) {now : ℚ}
    (forward : state.clock ≤ now) : Trusted kind period { state with clock := now } where
  current := trusted.current
  key := trusted.key
  subject := trusted.subject
  names := trusted.names
  held cert holds := by
    obtain ⟨issuedAt, entry, held⟩ := trusted.held cert holds
    exact ⟨issuedAt, entry, { held with until_ := le_trans held.until_ forward }⟩

omit [DecidableEq K] in
theorem trusted_check {state : Holding K} (trusted : Trusted kind period state) {now : ℚ}
    (forward : state.clock ≤ now) : Trusted kind period (Holding.step kind state (now, .check)) := by
  cases holds : state.cert with
  | none =>
    simp only [Holding.step, holds]
    exact holds ▸ trusted_later trusted forward
  | some cert =>
    simp only [Holding.step, holds]
    split
    · cases renewed : state.signer.renew cert kind now with
      | none => exact holds ▸ trusted_later trusted forward
      | some fresh =>
        obtain ⟨cn, -, rfl⟩ := Option.map_eq_some_iff.mp renewed
        exact trusted_issue trusted
    · next early =>
      -- seen to last for the margin and more
      refine ⟨trusted.current, trusted.key, trusted.subject, trusted.names, fun cert' holds' => ?_⟩
      obtain ⟨issuedAt, entry, held⟩ := trusted.held cert' (holds ▸ holds')
      obtain rfl := Option.some.inj holds'
      refine ⟨issuedAt, entry, { held with
        since := le_trans (le_trans held.since held.until_) forward
        until_ := le_refl _
        looked := .inr ?_ }⟩
      simpa only [Signer.needsRenewal, decide_eq_true_eq, ge_iff_le, not_le] using early

omit [DecidableEq K] in
theorem trusted_step {state : Holding K} {event : ℚ × Holding.Event K} (trusted : Trusted kind period state)
    (timely : Timely kind period state event) : Trusted kind period (Holding.step kind state event) := by
  obtain ⟨now, event⟩ := event
  cases event with
  | rotate overlap key => exact trusted_rotate trusted timely
  | enroll cn publicKey => exact trusted_issue trusted
  | check => exact trusted_check trusted timely.1

omit [DecidableEq K] in
theorem trusted_run {state : Holding K} (trusted : Trusted kind period state) {events : List (ℚ × Holding.Event K)}
    (along : Along (Holding.step kind) (Timely kind period) events state) :
    Trusted kind period (events.foldl (Holding.step kind) state) :=
  along.keeps (fun _ _ timely trusted => trusted_step trusted timely) trusted

/-! ## At every time -/

theorem margin_lt_lifetime (kind : Kind) : kind.margin < kind.lifetime := by
  cases kind <;> norm_num [Kind.margin, Kind.lifetime, rootLifetime]

/-- Until the next look is due, the certificate is accepted. -/
theorem verify_held {state : Holding K} (trusted : Trusted kind period state) (short : period ≤ kind.margin)
    {cert : Certificate K} (holds : state.cert = some cert) {now : ℚ} (after : state.clock ≤ now)
    (due : now ≤ state.checked + period) : ∃ cn, state.bundle.verify cert now 300 [] = .ok cn := by
  obtain ⟨issuedAt, entry, held⟩ := trusted.held cert holds
  obtain ⟨g, -, named⟩ := trusted.names entry held.listed
  have since := held.since
  have until_ := held.until_
  have lifetimes := margin_lt_lifetime kind
  have begins : cert.notValidBefore ≤ issuedAt - 60 := by
    rw [held.before]
    exact Int.floor_le _
  have ends : cert.notValidAfter ≤ issuedAt + kind.lifetime := by
    rw [held.after]
    exact Int.floor_le _
  have ends' : issuedAt + kind.lifetime - 1 < cert.notValidAfter := by
    rw [held.after]
    exact Int.sub_one_lt_floor _
  have young : now ≤ issuedAt + inUse kind period := by
    unfold inUse
    obtain here | looked := held.looked <;> linarith
  refine ⟨_, verify_ok held.listed held.issuer (congrArg Name.commonNames named) held.signed ?_ ?_ ?_⟩
  · exact held.outlives.imp id fun outlives => lt_of_le_of_lt young outlives
  · linarith
  · obtain here | looked := held.looked <;> linarith

/-- Rotation never breaks a holder. -/
theorem holder_accepted (domain org : String) (time : ℚ) (key tokenKey : K) (kid : String)
    (events : List (ℚ × Holding.Event K)) (short : period ≤ kind.margin)
    (timely : Along (Holding.step kind) (Timely kind period) events
      (Holding.start domain org time key tokenKey kid)) :
    let state := events.foldl (Holding.step kind) (Holding.start domain org time key tokenKey kid)
    ∀ cert, state.cert = some cert → ∀ now, state.clock ≤ now → now ≤ state.checked + period →
      ∃ cn, state.bundle.verify cert now 300 [] = .ok cn :=
  fun _ holds _ after due => verify_held (trusted_run (trusted_start ..) timely) short holds after due

/-- Twice the root rotates while the first certificate is in use. -/
def twoRotations : List (ℚ × Holding.Event Nat) :=
  [(100, .enroll "n1" 9), (200, .rotate 300000 2), (80000, .check), (80100, .rotate 300000 3), (160000, .check),
    (220000, .check), (290000, .rotate 300000 4)]

theorem holder_accepted_rotated :
    Along (Holding.step .service) (Timely .service 86400) twoRotations (Holding.start "d" "o" 0 1 5 "k") ∧
      let state := twoRotations.foldl (Holding.step .service) (Holding.start "d" "o" 0 1 5 "k")
      ∀ cert, state.cert = some cert → ∀ now, state.clock ≤ now → now ≤ state.checked + 86400 →
        ∃ cn, state.bundle.verify cert now 300 [] = .ok cn :=
  have timely : Along (Holding.step .service) (Timely .service 86400) twoRotations
      (Holding.start "d" "o" 0 1 5 "k") := by decide +kernel
  ⟨timely, holder_accepted "d" "o" 0 1 5 "k" twoRotations (by norm_num [Kind.margin]) timely⟩

end RootRotation

end EdgeVms.Verified
