import EdgeVms.Domain.Grants

/-! # When access ends

The stated end is the token's expiry or the latest grant's, whichever is sooner;
a token is accepted for the tolerated difference of the clocks longer.  So where
the token's expiry is the sooner one, it is not yet the end.
-/

namespace EdgeVms.Verified.AccessEnds

open Domain Python

variable {K : Type} [DecidableEq K]

/-- From the time `t` on the Node's table only loses grants, and its trust is whatever it is: the Node
refuses the token at every time from the stated end on. -/
def EndsAsStated (table : NodeGrants) (token : Token K) (t : ℚ) : Prop :=
  ∀ (node : NodeAuthoriser K) (now lookup : ℚ), node.grants.grants ⊆ table.grants →
    t ≤ now → table.accessEnds token.payload.sub token.payload.exp ≤ now → now ≤ lookup →
    ∀ capability camera, ∃ refusal, node.authorise token capability camera now lookup = .error refusal

/-- The first time from `t` and from the token's expiry on at which the token is not issued in the future. -/
def reopens (token : Token K) (t : ℚ) : ℚ := max t (max token.payload.exp (token.payload.iat - tokenSkew))

/-- The subject has a grant that is longer than that. -/
def Outlasts (table : NodeGrants) (subject : String) (time : ℚ) : Prop :=
  ∃ entry ∈ table.grants, entry.1.1 = subject ∧ time < entry.2

/-! ## The stated end -/

theorem foldl_max_le_iff (untils : List ℚ) (first bound : ℚ) :
    untils.foldl max first ≤ bound ↔ first ≤ bound ∧ ∀ u ∈ untils, u ≤ bound := by
  induction untils generalizing first with
  | nil => simp
  | cons u rest ih =>
    rw [List.foldl_cons, ih, max_le_iff]
    simp [and_assoc]

/-- With a grant that is longer, the stated end is the token's expiry. -/
theorem accessEnds_le_iff {table : NodeGrants} {subject : String} {exp now : ℚ}
    (outlasts : Outlasts table subject now) : table.accessEnds subject exp ≤ now ↔ exp ≤ now := by
  obtain ⟨entry, member, whose, longer⟩ := outlasts
  have listed : entry.2 ∈ (table.grants.filter fun entry => entry.1.1 = subject).map Prod.snd :=
    List.mem_map_of_mem (List.mem_filter.mpr ⟨member, by simpa using whose⟩)
  rw [NodeGrants.accessEnds]
  generalize (table.grants.filter fun entry => entry.1.1 = subject).map Prod.snd = untils at listed
  cases untils with
  | nil => cases listed
  | cons first untils =>
    rw [min_le_iff, or_iff_left]
    intro lapsed
    obtain ⟨before, others⟩ := (foldl_max_le_iff untils first now).mp lapsed
    obtain rfl | later := List.mem_cons.mp listed
    · exact absurd before (not_le.mpr longer)
    · exact absurd (others _ later) (not_le.mpr longer)

/-! ## What a Node accepts -/

/-- An accepted token: what the check of the signature and of the times has found. -/
structure Accepted (node : NodeAuthoriser K) (token : Token K) (now : ℚ) : Prop where
  usable : node.keyset.usable token.kid now = true
  signed : token.signature ≠ none
  key : token.signature = node.keyset.keys.get? token.kid
  unexpired : now ≤ token.payload.exp + tokenSkew
  issued : token.payload.iat - tokenSkew ≤ now
  unlisted : token.payload.jti ∉ node.revoked

theorem subject_ok_iff {node : NodeAuthoriser K} {token : Token K} {now : ℚ} {subject : String} :
    node.subject token now = .ok subject ↔ Accepted node token now ∧ token.payload.sub = subject := by
  rw [NodeAuthoriser.subject, map_eq_ok, Token.verify]
  constructor
  · rintro ⟨payload, accepted, named⟩
    split at accepted
    next => cases accepted
    next usable =>
      split at accepted
      next => cases accepted
      next signed =>
        split at accepted
        next => cases accepted
        next unexpired =>
          split at accepted
          next => cases accepted
          next issued =>
            split at accepted
            next => cases accepted
            next unlisted =>
              cases accepted
              obtain ⟨isSigned, key⟩ := not_or.mp signed
              exact ⟨⟨by simpa using usable, isSigned, not_not.mp key, not_lt.mp unexpired, not_lt.mp issued,
                unlisted⟩, named⟩
  · rintro ⟨accepted, named⟩
    refine ⟨token.payload, ?_, named⟩
    have signed : ¬(token.signature = none ∨ token.signature ≠ node.keyset.keys.get? token.kid) :=
      not_or.mpr ⟨accepted.signed, not_not.mpr accepted.key⟩
    rw [if_neg (by simpa using accepted.usable), if_neg signed, if_neg (not_lt.mpr accepted.unexpired),
      if_neg (not_lt.mpr accepted.issued), if_neg accepted.unlisted]

/-- It is authorised for what a grant of its subject covers. -/
theorem authorise_ok_iff {node : NodeAuthoriser K} {token : Token K} {capability : String} {camera : Int}
    {now lookup : ℚ} {subject : String} :
    node.authorise token capability camera now lookup = .ok subject ↔
      node.subject token now = .ok subject ∧ node.grants.may subject capability camera lookup = true := by
  rw [NodeAuthoriser.authorise]
  cases named : node.subject token now with
  | error e => simp
  | ok who =>
    simp only [Except.ok.injEq]
    split
    next may =>
      constructor
      · intro same
        cases same
        exact ⟨rfl, may⟩
      · rintro ⟨rfl, -⟩
        rfl
    next mayNot =>
      constructor
      · intro same
        cases same
      · rintro ⟨rfl, may⟩
        exact absurd may mayNot

theorem outlasts_of_may {table : NodeGrants} {subject capability : String} {camera : Int} {now : ℚ}
    (may : table.may subject capability camera now = true) : Outlasts table subject now := by
  obtain ⟨entry, member, covers⟩ := List.any_eq_true.mp may
  simp only [Bool.and_eq_true, decide_eq_true_eq] at covers
  exact ⟨entry, member, covers.1.1.1, covers.2⟩

/-- Some camera and some capability are covered by any grant. -/
theorem may_of_outlasts {table : NodeGrants} {subject : String} {now : ℚ} (outlasts : Outlasts table subject now) :
    ∃ capability camera, table.may subject capability camera now = true := by
  obtain ⟨⟨⟨who, capability, camera⟩, until_⟩, member, whose, longer⟩ := outlasts
  refine ⟨capability, camera.getD 0, List.any_eq_true.mpr ⟨_, member, ?_⟩⟩
  cases camera with
  | none => simp_all
  | some camera => simp_all

/-! ## When the stated end is the end -/

/-- Access ends as stated exactly when no key has signed the token, or once it has expired it is never
accepted again: its skew has passed, or its subject has no grant left. -/
theorem ends_as_stated_iff (table : NodeGrants) (token : Token K) (t : ℚ) :
    EndsAsStated table token t ↔ token.signature = none ∨ token.payload.exp + tokenSkew < reopens token t ∨
      ¬Outlasts table token.payload.sub (reopens token t) := by
  constructor
  · intro ends
    by_contra open_
    simp only [not_or, not_not, not_lt] at open_
    obtain ⟨signed, unexpired, outlasts⟩ := open_
    obtain ⟨key, signature⟩ := Option.ne_none_iff_exists'.mp signed
    obtain ⟨capability, camera, may⟩ := may_of_outlasts outlasts
    have expired : token.payload.exp ≤ reopens token t := by simp [reopens]
    -- a Node that trusts the key, at the first such time
    let node : NodeAuthoriser K := ⟨table, ⟨token.kid, [(token.kid, key)], []⟩, []⟩
    have accepted : Accepted node token (reopens token t) := by
      refine ⟨by simp [node, KeySet.usable, Dict.get?], signed, ?_, unexpired, by simp [reopens], by simp [node]⟩
      simp [node, signature, Dict.get?]
    obtain ⟨refusal, refused⟩ := ends node (reopens token t) (reopens token t) (List.Subset.refl _) (by simp [reopens])
      ((accessEnds_le_iff outlasts).mpr expired) le_rfl capability camera
    have granted := authorise_ok_iff.mpr ⟨subject_ok_iff.mpr ⟨accepted, rfl⟩, may⟩
    rw [refused] at granted
    cases granted
  · intro closed node now lookup lost after stated later capability camera
    cases answer : node.authorise token capability camera now lookup with
    | error refusal => exact ⟨refusal, rfl⟩
    | ok subject =>
      -- an accepted token at `now` was acceptable at `reopens`, too
      obtain ⟨named, may⟩ := authorise_ok_iff.mp answer
      obtain ⟨accepted, rfl⟩ := subject_ok_iff.mp named
      obtain ⟨entry, member, whose, longer⟩ := outlasts_of_may may
      have outlasts : Outlasts table token.payload.sub now :=
        ⟨entry, lost member, whose, lt_of_le_of_lt later longer⟩
      have expired : token.payload.exp ≤ now := (accessEnds_le_iff outlasts).mp stated
      have reached : reopens token t ≤ now := max_le after (max_le expired accepted.issued)
      obtain unsigned | past | lapsed := closed
      · exact absurd unsigned accepted.signed
      · exact absurd (reached.trans accepted.unexpired) (not_le.mpr past)
      · obtain ⟨entry, member, whose, longer⟩ := outlasts
        exact absurd ⟨entry, member, whose, lt_of_le_of_lt reached longer⟩ lapsed

/-! ## The skew -/

/-- A token that runs out at 900, and a grant that runs a day. -/
def operatorToken : Token Unit := ⟨"k1", ⟨"alice", 0, 900, "j1"⟩, some ()⟩

def operatorTable : NodeGrants := ⟨"node-4", [(("alice", "view", none), 86400)]⟩

/-- The stated end is 900, and the Node takes the token at 900 and at 960. -/
theorem skew_outlives : ¬EndsAsStated operatorTable operatorToken 0 := by
  intro ends
  have stated : operatorTable.accessEnds "alice" 900 = 900 := by decide +kernel
  obtain ⟨refusal, refused⟩ := ends ⟨operatorTable, ⟨"k1", [("k1", ())], []⟩, []⟩ 960 960 (List.Subset.refl _)
    (by norm_num) (by rw [operatorToken, stated]; norm_num) le_rfl "view" 7
  have granted : NodeAuthoriser.authorise ⟨operatorTable, ⟨"k1", [("k1", ())], []⟩, []⟩ operatorToken "view" 7 960 960 =
      .ok "alice" := by decide +kernel
  rw [refused] at granted
  cases granted

end EdgeVms.Verified.AccessEnds
