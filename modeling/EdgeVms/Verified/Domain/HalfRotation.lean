import EdgeVms.Domain.StoredRoot
import EdgeVms.Verified.Domain.RootRotation

/-! # A rotation that raises

The write is the only step that can fail, and it is the last one: by then the signer
has the new root and its number, and the bundle is retiring the old one.
-/

namespace EdgeVms.Verified.HalfRotation

open Process Python Domain
open RootRotation (mem_setRoot_self mem_setRoot_other eq_of_name)

variable {K : Type} [DecidableEq K]

/-- The skew that `TrustBundle.verify` allows, if its caller says nothing. -/
def bundleSkew : ℚ := 300

/-- What the signer issues is accepted under the root that a restarted signer finds in the store. -/
def SurvivesRestart (state : Rotating K) : Prop :=
  ∃ items, state.row.read () = some items ∧
    ∀ cn kind publicKey lifetime issued now, let cert := state.signer.issue cn kind publicKey lifetime issued
      cert.notValidBefore ≤ now → now ≤ cert.notValidAfter →
        ∃ root, (TrustBundle.empty.add items.caCert 0).verify cert now bundleSkew [] = .ok root

/-- The call has left everything as it was. -/
structure Untouched (before after : Rotating K) : Prop where
  root : after.signer.root = before.signer.root
  generation : after.signer.generation = before.signer.generation
  bundle : after.bundle = before.bundle
  survives : SurvivesRestart after

/-- The signer, the store and the bundle all have the new root. -/
structure Rotated (new : Root K) (after : Rotating K) : Prop where
  signer : after.signer.root = new
  stored : ∃ items, after.row.read () = some items ∧ items.root = new ∧ items.gen = after.signer.generation
  trusted : (new.cert, 0) ∈ after.bundle.roots

/-- A call of `rotate_root` does all of it or nothing. -/
def Atomic (state : Rotating K) (overlap now : ℚ) (key : K) (meanwhile : Meanwhile K) : Prop :=
  (∀ fault, (state.rotateRoot overlap now key meanwhile).1 = .error fault →
    Untouched state (state.rotateRoot overlap now key meanwhile).2) ∧
  ∀ new cross, (state.rotateRoot overlap now key meanwhile).1 = .ok (new, cross) →
    Rotated new (state.rotateRoot overlap now key meanwhile).2

/-- The store answers both requests, and nobody writes in between. -/
structure Quiet (meanwhile : Meanwhile K) : Prop where
  get : meanwhile.get = none
  others : meanwhile.others = []
  lost : meanwhile.lost = none

/-- The signer's root does not bear the name of the next generation. -/
def NextIsNew (signer : Signer K) : Prop :=
  signer.root.cert.subject.rfc4514 ≠ (nameOf (Signer.rootCn signer.domain (signer.generation + 1)) signer.org).rfc4514

/-! ## The write -/

omit [DecidableEq K] in
theorem version_others (row : Versioned Unit fun _ => Keys K) {others : List (Keys K)} (some_ : others ≠ []) :
    row.version () < (others.foldl (fun row other => row.write () other) row).version () := by
  -- the last write has a version after the counter, and the counter does not go back
  have counter : ∀ (others : List (Keys K)) (row : Versioned Unit fun _ => Keys K),
      row.index ≤ (others.foldl (fun row other => row.write () other) row).index := by
    intro others
    induction others with
    | nil => exact fun row => le_rfl
    | cons other rest ih => exact fun row => (Nat.le_succ _).trans (ih (row.write () other))
  obtain none_ | ⟨earlier, last, rfl⟩ := List.eq_nil_or_concat others
  · exact absurd none_ some_
  · rw [List.concat_eq_append, List.foldl_append, List.foldl_cons, List.foldl_nil, Versioned.version_write_self]
    exact Nat.lt_succ_of_le ((row.version_le ()).trans (counter earlier row))

omit [DecidableEq K] in
theorem persist_quiet (row : Versioned Unit fun _ => Keys K) (items : Keys K) {meanwhile : Meanwhile K}
    (quiet : Quiet meanwhile) : Rotating.persist row items meanwhile = (.ok (), row.write () items) := by
  simp [Rotating.persist, quiet.get, quiet.others, quiet.lost]

omit [DecidableEq K] in
/-- A write that returns has met a quiet store. -/
theorem quiet_of_persist {row : Versioned Unit fun _ => Keys K} {items : Keys K} {meanwhile : Meanwhile K}
    (returned : (Rotating.persist row items meanwhile).1 = .ok ()) : Quiet meanwhile := by
  obtain ⟨get, others, lost⟩ := meanwhile
  cases get with
  | some fault => cases returned
  | none =>
    cases lost with
    | some applied => cases returned
    | none =>
      refine ⟨rfl, ?_, rfl⟩
      by_contra some_
      have moved := version_others row some_
      simp only [Rotating.persist] at returned
      rw [if_neg (Nat.ne_of_lt moved)] at returned
      cases returned

/-! ## The call -/

section Call

variable (state : Rotating K) (overlap now : ℚ) (key : K) (meanwhile : Meanwhile K)

def newRoot : Root K := (state.signer.withNewRoot now key).root

omit [DecidableEq K] in
theorem rotateRoot_bundle : (state.rotateRoot overlap now key meanwhile).2.bundle =
    (state.bundle.add (newRoot state now key).cert 0).retire state.signer.root.cert (now + overlap) := rfl

omit [DecidableEq K] in
theorem rotateRoot_row : (state.rotateRoot overlap now key meanwhile).2.row =
    (Rotating.persist state.row (state.signer.withNewRoot now key).keys meanwhile).2 := rfl

omit [DecidableEq K] in
theorem rotateRoot_answer : ∃ cross, (state.rotateRoot overlap now key meanwhile).1 =
    (fun _ => (newRoot state now key, cross)) <$>
      (Rotating.persist state.row (state.signer.withNewRoot now key).keys meanwhile).1 := ⟨_, rfl⟩

end Call

variable {state : Rotating K} {overlap now : ℚ} {key : K} {meanwhile : Meanwhile K}

omit [DecidableEq K] in
/-- The bundle trusts the new root, unless the old one has its name: then retiring the old one takes
its place. -/
theorem trusted_iff (fresh : key ≠ state.signer.root.cert.publicKey) :
    ((newRoot state now key).cert, 0) ∈ (state.rotateRoot overlap now key meanwhile).2.bundle.roots ↔
      NextIsNew state.signer := by
  rw [rotateRoot_bundle]
  constructor
  · intro trusted same
    have retiring := mem_setRoot_self state.signer.root.cert (now + overlap)
      (TrustBundle.setRoot (newRoot state now key).cert 0 state.bundle.roots)
    have equal := eq_of_name trusted retiring same.symm
    have keys := congrArg (fun entry => entry.1.publicKey) equal
    exact fresh keys
  · intro other
    exact mem_setRoot_other (now + overlap) (mem_setRoot_self _ 0 _) (Ne.symm other)

omit [DecidableEq K] in
/-- A root that is named by its generation, as every root is that the signer has made. -/
theorem nextIsNew_of_named {signer : Signer K}
    (named : signer.root.cert.subject = nameOf (Signer.rootCn signer.domain signer.generation) signer.org) :
    NextIsNew signer := by
  intro same
  rw [named] at same
  have next := RootRotation.rootName_inj same
  omega

/-- A rotation is atomic exactly when the store answers and nobody else writes, and the next
generation has a name of its own. -/
theorem rotation_atomic_iff (fresh : key ≠ state.signer.root.cert.publicKey) :
    Atomic state overlap now key meanwhile ↔ Quiet meanwhile ∧ NextIsNew state.signer := by
  obtain ⟨cross, answer⟩ := rotateRoot_answer state overlap now key meanwhile
  constructor
  · rintro ⟨raises, returns⟩
    cases written : (Rotating.persist state.row (state.signer.withNewRoot now key).keys meanwhile).1 with
    | error fault =>
      -- the generation has been counted up by then
      rw [written] at answer
      have untouched := raises fault answer
      have counted : state.signer.generation + 1 = state.signer.generation := untouched.generation
      omega
    | ok _ =>
      rw [written] at answer
      have rotated := returns _ cross answer
      exact ⟨quiet_of_persist written, (trusted_iff fresh).mp rotated.trusted⟩
  · rintro ⟨quiet, other⟩
    have written := persist_quiet state.row (state.signer.withNewRoot now key).keys quiet
    rw [written] at answer
    refine ⟨fun fault raised => ?_, fun new cross' returned => ?_⟩
    · rw [answer] at raised
      cases raised
    · rw [answer] at returned
      cases returned
      refine ⟨rfl, ⟨(state.signer.withNewRoot now key).keys, ?_, rfl, rfl⟩, (trusted_iff fresh).mpr other⟩
      rw [rotateRoot_row, written]
      exact Versioned.read_write_self _ () _

/-! ## A store that does not answer -/

/-- A signer on its first start. -/
def firstSigner : Rotating Nat := .start "acme" "customer" 1000 0 1 "k1"

theorem first_rotation_atomic : Atomic firstSigner 600 2000 2 ⟨none, [], none⟩ :=
  (rotation_atomic_iff (by decide)).mpr ⟨⟨rfl, rfl, rfl⟩, nextIsNew_of_named rfl⟩

/-- The write does not get through: the signer has another root than the store. -/
theorem half_rotation : ¬Atomic firstSigner 600 2000 2 ⟨none, [], some false⟩ := by
  intro atomic
  have untouched := atomic.1 .unreachable rfl
  have counted : (2 : Int) = 1 := untouched.generation
  omega

end EdgeVms.Verified.HalfRotation
