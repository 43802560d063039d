import EdgeVms.Domain.Tokens
import EdgeVms.Process.Run

/-! # Revocation over runs

The list is pruned by the bare expiry of its tokens, which `verify` still accepts
for the length of the skew.  Every list names the expiry of the token it revokes
(`Exact`), and what a list no longer has is over, as long as no entry is pruned
within that time.
-/

namespace EdgeVms.Verified

open Process Python Domain

variable {K ι : Type} {issuer : TokenIssuer K} {state : Revocation K ι}

/-! ## The lists -/

theorem mem_jtis_set {dict : RevocationList} {key key' : String} {value : ℚ} :
    key' ∈ (dict.set key value).map Prod.fst ↔ key' = key ∨ key' ∈ dict.map Prod.fst := by
  induction dict with
  | nil => simp [Dict.set]
  | cons first rest ih =>
    obtain ⟨first, value'⟩ := first
    rw [Dict.set]
    split
    next same => simp [same]
    next =>
      rw [List.map_cons, List.mem_cons, ih, List.map_cons, List.mem_cons]
      tauto

theorem mem_toItems {entries : RevocationList} {entry : String × ℚ} : entry ∈ entries.toItems ↔ entry ∈ entries :=
  (List.perm_insertionSort _ entries).mem_iff

theorem mem_of_fromItems {row : Option RevocationList.Row} {entry : String × ℚ}
    (member : entry ∈ RevocationList.fromItems row) : entry ∈ row.getD [] := by
  have fold : ∀ (parts : RevocationList.Row) (entries : RevocationList),
      entry ∈ parts.foldl (fun entries part => entries.set part.1 part.2) entries →
        entry ∈ entries ∨ entry ∈ parts := by
    intro parts
    induction parts with
    | nil => exact fun entries member => .inl member
    | cons part rest ih =>
      intro entries member
      obtain earlier | later := ih _ member
      · obtain rfl | old := Dict.mem_set earlier
        · exact .inr List.mem_cons_self
        · exact .inl old
      · exact .inr (List.mem_cons_of_mem _ later)
  obtain none | there := fold _ _ member
  · cases none
  · exact there

theorem mem_jtis_fromItems {row : Option RevocationList.Row} {jti : String} :
    jti ∈ (RevocationList.fromItems row).jtis ↔ jti ∈ (row.getD []).map Prod.fst := by
  have fold : ∀ (parts : RevocationList.Row) (entries : RevocationList),
      jti ∈ (parts.foldl (fun entries part => entries.set part.1 part.2) entries).map Prod.fst ↔
        jti ∈ entries.map Prod.fst ∨ jti ∈ parts.map Prod.fst := by
    intro parts
    induction parts with
    | nil => simp
    | cons part rest ih =>
      intro entries
      rw [List.foldl_cons, ih, mem_jtis_set, List.map_cons, List.mem_cons]
      tauto
  rw [RevocationList.jtis, RevocationList.fromItems, fold]
  simp

/-! ## One step -/

/-- The entries are of issued tokens, with their expiry. -/
def Exact (issued : List (Token K)) (entries : RevocationList) : Prop :=
  ∀ entry ∈ entries, ∃ token ∈ issued, token.payload.jti = entry.1 ∧ token.payload.exp = entry.2

/-- No Node accepts a token of this expiry any more. -/
def Over (time exp : ℚ) : Prop := exp + tokenSkew < time

structure Accounted (state : Revocation K ι) : Prop where
  distinct : ∀ token ∈ state.issued, ∀ other ∈ state.issued, token.payload.jti = other.payload.jti → token = other
  revoked : Exact state.issued state.revoked
  published : Exact state.issued (state.published.getD [])
  held : ∀ cluster, Exact state.issued ((state.held cluster).getD [])
  /-- What is published is still in memory, or over. -/
  remembered : ∀ entry ∈ state.published.getD [],
    Over state.time entry.2 ∨ entry.1 ∈ state.revoked.map Prod.fst
  /-- What an agent holds is still published, or over. -/
  spread : ∀ cluster, ∀ entry ∈ (state.held cluster).getD [],
    Over state.time entry.2 ∨ entry.1 ∈ (state.published.getD []).map Prod.fst

/-- The step prunes no entry whose token a Node may still accept. -/
def PrunesOver (state : Revocation K ι) : Revocation.Event K ι → Prop
  | .prune => ∀ entry ∈ state.revoked, entry.2 ≤ state.time → Over state.time entry.2
  | _ => True

instance (state : Revocation K ι) : (event : Revocation.Event K ι) → Decidable (PrunesOver state event)
  | .prune => inferInstanceAs (Decidable (∀ entry ∈ state.revoked, _ ≤ _ → _ < _))
  | .wait _ | .issue _ _ _ | .revoke _ | .publish | .restart | .sync _ => .isTrue trivial

theorem Exact.mono {issued : List (Token K)} {entries : RevocationList} (exact_ : Exact issued entries)
    (token : Token K) : Exact (token :: issued) entries := by
  intro entry member
  obtain ⟨other, inside, same⟩ := exact_ entry member
  exact ⟨other, List.mem_cons_of_mem _ inside, same⟩

theorem Over.later {time time' exp : ℚ} (past : Over time exp) (later : time ≤ time') : Over time' exp :=
  lt_of_lt_of_le past later

theorem accounted_start (time : ℚ) : Accounted (Revocation.start time : Revocation K ι) := by
  constructor <;> simp [Revocation.start, Exact]

theorem accounted_issue (accounted : Accounted state) {token : Token K}
    (fresh : token.payload.jti ∉ state.issued.map fun token => token.payload.jti) :
    Accounted { state with issued := token :: state.issued } := by
  have other : ∀ old ∈ state.issued, old.payload.jti ≠ token.payload.jti := by
    intro old member same
    exact fresh (List.mem_map.mpr ⟨old, member, same⟩)
  constructor
  · intro first firstIn second secondIn same
    obtain rfl | firstOld := List.mem_cons.mp firstIn
    · obtain rfl | secondOld := List.mem_cons.mp secondIn
      · rfl
      · exact absurd same.symm (other second secondOld)
    · obtain rfl | secondOld := List.mem_cons.mp secondIn
      · exact absurd same (other first firstOld)
      · exact accounted.distinct first firstOld second secondOld same
  · exact accounted.revoked.mono token
  · exact accounted.published.mono token
  · exact fun cluster => (accounted.held cluster).mono token
  · exact accounted.remembered
  · exact accounted.spread

theorem accounted_revoke (accounted : Accounted state) {token : Token K} (member : token ∈ state.issued) :
    Accounted { state with revoked := state.revoked.revoke token.payload } := by
  refine { accounted with revoked := ?_, remembered := ?_ }
  · intro entry inside
    obtain rfl | old := Dict.mem_set inside
    · exact ⟨token, member, rfl, rfl⟩
    · exact accounted.revoked entry old
  · intro entry inside
    obtain past | there := accounted.remembered entry inside
    · exact .inl past
    · exact .inr (mem_jtis_set.mpr (.inr there))

/-- Two entries of one id have one expiry. -/
theorem Accounted.expiry (accounted : Accounted state) {entries entries' : RevocationList}
    (first : Exact state.issued entries) (second : Exact state.issued entries') {jti : String} {exp exp' : ℚ}
    (member : (jti, exp) ∈ entries) (member' : (jti, exp') ∈ entries') : exp = exp' := by
  obtain ⟨token, issued, id, expiry⟩ := first _ member
  obtain ⟨other, issued', id', expiry'⟩ := second _ member'
  obtain rfl := accounted.distinct token issued other issued' (id.trans id'.symm)
  exact expiry.symm.trans expiry'

theorem accounted_prune (accounted : Accounted state)
    (overs : ∀ entry ∈ state.revoked, entry.2 ≤ state.time → Over state.time entry.2) :
    Accounted { state with revoked := state.revoked.prune state.time } := by
  refine { accounted with revoked := ?_, remembered := ?_ }
  · exact fun entry inside => accounted.revoked entry (List.mem_of_mem_filter inside)
  · rintro ⟨jti, exp⟩ inside
    obtain past | there := accounted.remembered _ inside
    · exact .inl past
    · obtain ⟨⟨jti', exp'⟩, remembered, same⟩ := List.mem_map.mp there
      dsimp only at same
      subst same
      -- the entry in memory has the expiry of the published one, and goes only when that is over
      obtain rfl := accounted.expiry accounted.published accounted.revoked inside remembered
      by_cases kept : exp > state.time
      · exact .inr (List.mem_map.mpr ⟨_, List.mem_filter.mpr ⟨remembered, by simpa using kept⟩, rfl⟩)
      · exact .inl (overs _ remembered (not_lt.mp kept))

theorem accounted_publish (accounted : Accounted state) :
    Accounted { state with published := some state.revoked.toItems } := by
  refine { accounted with published := ?_, remembered := ?_, spread := ?_ }
  · exact fun entry inside => accounted.revoked entry (mem_toItems.mp inside)
  · exact fun entry inside => .inr (List.mem_map_of_mem (mem_toItems.mp inside))
  · rintro cluster ⟨jti, exp⟩ inside
    have republished : ∀ {entry : String × ℚ}, entry.1 ∈ state.revoked.map Prod.fst →
        entry.1 ∈ (state.revoked.toItems).map Prod.fst := by
      intro entry there
      obtain ⟨entry', remembered, same⟩ := List.mem_map.mp there
      exact List.mem_map.mpr ⟨entry', mem_toItems.mpr remembered, same⟩
    obtain past | there := accounted.spread cluster _ inside
    · exact .inl past
    · obtain ⟨⟨jti', exp'⟩, published, same⟩ := List.mem_map.mp there
      dsimp only at same
      subst same
      obtain rfl := accounted.expiry (accounted.held cluster) accounted.published inside published
      obtain past | remembered := accounted.remembered _ published
      · exact .inl past
      · exact .inr (republished remembered)

theorem accounted_restart (accounted : Accounted state) :
    Accounted { state with revoked := RevocationList.fromItems state.published } := by
  refine { accounted with revoked := ?_, remembered := ?_ }
  · exact fun entry inside => accounted.published entry (mem_of_fromItems inside)
  · exact fun entry inside => .inr (mem_jtis_fromItems.mpr (List.mem_map_of_mem inside))

variable [DecidableEq ι]

theorem accounted_sync (accounted : Accounted state) {row : RevocationList.Row} (published : state.published = some row)
    (cluster : ι) : Accounted { state with held := Function.update state.held cluster (some row) } := by
  have published' : state.published.getD [] = row := by rw [published]; rfl
  refine { accounted with held := ?_, spread := ?_ }
  · intro other
    by_cases same : other = cluster
    · subst same
      simp only [Function.update_self, Option.getD_some]
      rw [← published']
      exact accounted.published
    · simp only [Function.update_of_ne same]
      exact accounted.held other
  · intro other entry inside
    by_cases same : other = cluster
    · subst same
      simp only [Function.update_self, Option.getD_some] at inside
      rw [← published'] at inside
      exact .inr (List.mem_map_of_mem inside)
    · simp only [Function.update_of_ne same] at inside
      exact accounted.spread other entry inside

variable [DecidableEq K]

theorem time_le (issuer : TokenIssuer K) (state : Revocation K ι) (event : Revocation.Event K ι) :
    state.time ≤ (state.step issuer event).time := by
  cases event with
  | wait seconds => exact le_add_of_nonneg_right (abs_nonneg seconds)
  | issue | revoke | sync =>
    simp only [Revocation.step]
    repeat' split
    all_goals exact le_refl _
  | prune | publish | restart => exact le_refl _

theorem verify_ok {token : Token K} {keys : KeySet K} {revoked : List String} {now skew : ℚ} {payload : Payload}
    (accepted : token.verify keys revoked now skew = .ok payload) :
    payload = token.payload ∧ ¬ now > token.payload.exp + skew ∧ token.payload.jti ∉ revoked := by
  unfold Token.verify at accepted
  repeat' split at accepted
  all_goals cases accepted
  exact ⟨rfl, by assumption, by assumption⟩

theorem accounted_step (event : Revocation.Event K ι) (prunes : PrunesOver state event)
    (accounted : Accounted state) : Accounted (state.step issuer event) := by
  cases event with
  | wait seconds =>
    have later := time_le issuer state (.wait seconds)
    refine { accounted with remembered := ?_, spread := ?_ }
    · exact fun entry inside => (accounted.remembered entry inside).imp_left fun past => past.later later
    · exact fun cluster entry inside => (accounted.spread cluster entry inside).imp_left fun past => past.later later
  | issue subject lifetime jti =>
    simp only [Revocation.step]
    split
    next => exact accounted
    next fresh => exact accounted_issue accounted fresh
  | revoke token =>
    simp only [Revocation.step]
    split
    next member =>
      split
      next payload accepted =>
        rw [(verify_ok accepted).1]
        exact accounted_revoke accounted member
      next => exact accounted
    next => exact accounted
  | prune => exact accounted_prune accounted prunes
  | publish => exact accounted_publish accounted
  | restart => exact accounted_restart accounted
  | sync cluster =>
    simp only [Revocation.step]
    split
    next row published => exact accounted_sync accounted published cluster
    next => exact accounted

/-! ## Runs -/

/-- The agent's list has the token, or the token is over. -/
structure Barred (token : Token K) (cluster : ι) (state : Revocation K ι) : Prop where
  accounted : Accounted state
  issued : token ∈ state.issued
  listed : Over state.time token.payload.exp ∨
    token.payload.jti ∈ ((state.held cluster).getD []).map Prod.fst

theorem issued_step {token : Token K} (member : token ∈ state.issued) (event : Revocation.Event K ι) :
    token ∈ (state.step issuer event).issued := by
  cases event with
  | issue | revoke | sync =>
    simp only [Revocation.step]
    repeat' split
    all_goals first | exact member | exact List.mem_cons_of_mem _ member
  | wait | prune | publish | restart => exact member

theorem barred_step {token : Token K} {cluster : ι} (event : Revocation.Event K ι) (prunes : PrunesOver state event)
    (barred : Barred token cluster state) : Barred token cluster (state.step issuer event) := by
  refine ⟨accounted_step event prunes barred.accounted, issued_step barred.issued event, ?_⟩
  obtain past | listed := barred.listed
  · exact .inl (past.later (time_le issuer state event))
  cases event with
  | sync other =>
    simp only [Revocation.step]
    split
    next row published =>
      by_cases same : cluster = other
      · subst same
        simp only [Function.update_self, Option.getD_some]
        obtain ⟨⟨jti, exp⟩, inside, id⟩ := List.mem_map.mp listed
        dsimp only at id
        -- the list that goes had the token with its own expiry
        obtain ⟨held, heldIssued, heldId, heldExp⟩ := barred.accounted.held cluster _ inside
        have itself : held = token :=
          barred.accounted.distinct held heldIssued token barred.issued (heldId.trans id)
        obtain past | there := barred.accounted.spread cluster _ inside
        · left
          rw [← itself, heldExp]
          exact past
        · right
          rw [published, Option.getD_some, id] at there
          exact there
      · simp only [Function.update_of_ne same]
        exact .inr listed
    next => exact .inr listed
  | issue | revoke =>
    simp only [Revocation.step]
    repeat' split
    all_goals exact .inr listed
  | wait | prune | publish | restart => exact .inr listed

/-- Once an agent holds a list with the token, no later verification there accepts it, in every run
that prunes no entry before its token is over. -/
theorem revoked_for_good {time : ℚ} {before after : List (Revocation.Event K ι)} {token : Token K} {cluster : ι}
    (prunes : Along (Revocation.step issuer) PrunesOver (before ++ after) (Revocation.start time))
    (issued : token ∈ (before.foldl (Revocation.step issuer) (Revocation.start time)).issued)
    (listed : token.payload.jti ∈ (RevocationList.fromItems
      ((before.foldl (Revocation.step issuer) (Revocation.start time)).held cluster)).jtis)
    (keys : KeySet K) (payload : Payload) :
    (after.foldl (Revocation.step issuer) (before.foldl (Revocation.step issuer) (Revocation.start time))).verifyAt
      cluster keys token ≠ .ok payload := by
  obtain ⟨prunes, prunes'⟩ := along_append.mp prunes
  have accounted := prunes.keeps (fun _ event allowed => accounted_step event allowed) (accounted_start time)
  have barred := prunes'.keeps (fun _ event allowed => barred_step event allowed)
    ⟨accounted, issued, .inr (mem_jtis_fromItems.mp listed)⟩
  intro accepted
  obtain ⟨-, unexpired, unlisted⟩ := verify_ok accepted
  obtain past | there := barred.listed
  · exact unexpired past
  · exact unlisted (mem_jtis_fromItems.mpr there)

/-! ## A token of ten seconds -/

def someIssuer : TokenIssuer Bool := ⟨true, "k1", []⟩

def aliceToken : Token Bool := someIssuer.issue "alice" 10 0 "a1"

/-- Alice gets her token, it is revoked, and the agent of the one cluster has the list. -/
def revokeAlice : List (Revocation.Event Bool Unit) :=
  [.issue "alice" 10 "a1", .revoke aliceToken, .publish, .sync ()]

def pruneAfter (seconds : ℚ) : List (Revocation.Event Bool Unit) := [.wait seconds, .prune, .publish, .sync ()]

def revocationRun (events : List (Revocation.Event Bool Unit)) : Revocation Bool Unit :=
  events.foldl (Revocation.step someIssuer) (Revocation.start 0)

theorem revoked_for_good_after_skew :
    (revocationRun (revokeAlice ++ pruneAfter 71)).verifyAt () someIssuer.keyset aliceToken ≠
      .ok aliceToken.payload := by
  have prunes : Along (Revocation.step someIssuer) PrunesOver (revokeAlice ++ pruneAfter 71)
      (Revocation.start 0) := by decide +kernel
  have issued : aliceToken ∈ (revokeAlice.foldl (Revocation.step someIssuer) (Revocation.start 0)).issued := by
    decide +kernel
  have listed : aliceToken.payload.jti ∈ (RevocationList.fromItems
      ((revokeAlice.foldl (Revocation.step someIssuer) (Revocation.start 0)).held ())).jtis := by decide +kernel
  have refused := revoked_for_good prunes issued listed someIssuer.keyset aliceToken.payload
  rw [revocationRun, List.foldl_append]
  exact refused

/-- Pruned at its expiry and published again, the list no longer bars a token that still verifies. -/
theorem pruned_token_accepted : ¬ ∀ (before after : List (Revocation.Event Bool Unit)) (token : Token Bool)
    (payload : Payload), token ∈ (revocationRun before).issued →
      token.payload.jti ∈ (RevocationList.fromItems ((revocationRun before).held ())).jtis →
      (revocationRun (before ++ after)).verifyAt () someIssuer.keyset token ≠ .ok payload := by
  intro claim
  have issued : aliceToken ∈ (revocationRun revokeAlice).issued := by decide +kernel
  have listed : aliceToken.payload.jti ∈ (RevocationList.fromItems ((revocationRun revokeAlice).held ())).jtis := by
    decide +kernel
  apply claim revokeAlice (pruneAfter 10) aliceToken aliceToken.payload issued listed
  decide +kernel

end EdgeVms.Verified
