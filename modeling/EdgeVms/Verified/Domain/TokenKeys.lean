import EdgeVms.Domain.KeyStore
import EdgeVms.Process.Run

/-! # Tokens and the keys that signed them

A rotation keeps the old public key in memory only; the variable and a backup
hold the one key that was current when they were written.  `Covered` is what the
key set needs of the tokens, and `survives_iff` says that nothing else is in the way.
-/

namespace EdgeVms.Verified.TokenKeys

open Python Domain Process

variable {K : Type} {state : KeyService K}

/-- The key with this id is not rotated, or its overlap is not over. -/
def Within (state : KeyService K) (kid : String) : Prop :=
  ∀ until_, state.overlaps.get? kid = some until_ → state.time < until_

/-- The token is not expired, and its key is still to be accepted. -/
structure Due (state : KeyService K) (token : Token K) : Prop where
  unexpired : state.time ≤ token.payload.exp
  within : Within state token.kid

/-- Every such token verifies under the key set of the signer. -/
def Survives [DecidableEq K] (state : KeyService K) : Prop :=
  ∀ token ∈ state.issued, Due state token →
    token.verify state.signer.tokens.keyset [] state.time tokenSkew = .ok token.payload

/-- A new process starts from keys that have signed every token that is due. -/
def Allowed (state : KeyService K) : KeyService.Event K → Prop
  | .restart => ∀ token ∈ state.issued, Due state token → token.kid = state.stored.kid
  | .restore which =>
    ∀ items, state.backups[which]? = some items → ∀ token ∈ state.issued, Due state token → token.kid = items.kid
  | _ => True

/-! ## The key set -/

/-- The key that the set holds under an id is the last one put there. -/
theorem keyset_fold {previous : List (String × K × ℚ)} (distinct : (previous.map Prod.fst).Nodup) (keys : KeySet K)
    (kid : String) :
    let set := previous.foldl (fun keys (kid, key, until_) =>
      ({ keys with keys := keys.keys.set kid key, retireAt := keys.retireAt.set kid until_ } : KeySet K)) keys
    (∀ key until_, (kid, key, until_) ∈ previous →
      set.keys.get? kid = some key ∧ set.retireAt.get? kid = some until_) ∧
      (kid ∉ previous.map Prod.fst →
        set.keys.get? kid = keys.keys.get? kid ∧ set.retireAt.get? kid = keys.retireAt.get? kid) := by
  induction previous generalizing keys with
  | nil => simp
  | cons entry rest ih =>
    obtain ⟨first, key', until'⟩ := entry
    rw [List.map_cons, List.nodup_cons] at distinct
    obtain ⟨among, absent⟩ := ih distinct.2
      { keys with keys := keys.keys.set first key', retireAt := keys.retireAt.set first until' }
    constructor
    · intro key until_ member
      obtain same | later := List.mem_cons.mp member
      · cases same
        obtain ⟨here, retires⟩ := absent distinct.1
        exact ⟨here.trans (Dict.get?_set_self ..), retires.trans (Dict.get?_set_self ..)⟩
      · exact among key until_ later
    · intro outside
      rw [List.map_cons, List.mem_cons, not_or] at outside
      obtain ⟨here, retires⟩ := absent outside.2
      exact ⟨here.trans (Dict.get?_set_other _ _ outside.1), retires.trans (Dict.get?_set_other _ _ outside.1)⟩

variable {issuer : TokenIssuer K}

theorem keyset_previous (distinct : (issuer.kid :: issuer.previous.map Prod.fst).Nodup) {kid : String} {key : K}
    {until_ : ℚ} (member : (kid, key, until_) ∈ issuer.previous) :
    issuer.keyset.keys.get? kid = some key ∧ issuer.keyset.retireAt.get? kid = some until_ :=
  (keyset_fold (List.nodup_cons.mp distinct).2 _ kid).1 key until_ member

theorem keyset_current (distinct : (issuer.kid :: issuer.previous.map Prod.fst).Nodup) :
    issuer.keyset.keys.get? issuer.kid = some issuer.key ∧ issuer.keyset.retireAt.get? issuer.kid = none := by
  obtain ⟨absent, distinct⟩ := List.nodup_cons.mp distinct
  obtain ⟨here, retires⟩ := (keyset_fold distinct ⟨issuer.kid, [(issuer.kid, issuer.key)], []⟩ issuer.kid).2 absent
  exact ⟨here.trans (by simp [Dict.get?_cons]), retires⟩

theorem keyset_other (distinct : (issuer.kid :: issuer.previous.map Prod.fst).Nodup) {kid : String}
    (absent : kid ∉ issuer.kid :: issuer.previous.map Prod.fst) : issuer.keyset.keys.get? kid = none := by
  rw [List.mem_cons, not_or] at absent
  have here := ((keyset_fold (List.nodup_cons.mp distinct).2 ⟨issuer.kid, [(issuer.kid, issuer.key)], []⟩ kid).2
    absent.2).1
  exact here.trans (by simp [Dict.get?_cons, Ne.symm absent.1])

/-! ## The service -/

/-- The keys in memory, in the variable, in the backups and in the tokens are the ones that were made. -/
structure Accounted (state : KeyService K) : Prop where
  current : state.made.get? state.signer.tokens.kid = some state.signer.tokens.key
  free : state.overlaps.get? state.signer.tokens.kid = none
  previous : ∀ kid key until_, (kid, key, until_) ∈ state.signer.tokens.previous →
    state.made.get? kid = some key ∧ state.overlaps.get? kid = some until_
  distinct : (state.signer.tokens.kid :: state.signer.tokens.previous.map Prod.fst).Nodup
  stored : state.made.get? state.stored.kid = some state.stored.tokenKey
  backups : ∀ items ∈ state.backups, state.made.get? items.kid = some items.tokenKey
  overlaps : ∀ kid, (state.overlaps.get? kid).isSome → (state.made.get? kid).isSome
  issued : ∀ token ∈ state.issued, ∃ key, state.made.get? token.kid = some key ∧ token.signature = some key
  past : ∀ token ∈ state.issued, token.payload.iat ≤ state.time

/-- The key set has the keys of all tokens that are due. -/
def Covered (state : KeyService K) : Prop :=
  ∀ token ∈ state.issued, Due state token →
    token.kid ∈ state.signer.tokens.kid :: state.signer.tokens.previous.map Prod.fst

namespace Accounted

theorem start (domain org : String) (time : ℚ) (key tokenKey : K) (kid : String) :
    Accounted (KeyService.start domain org time key tokenKey kid) := by
  have own : Dict.get? [(kid, tokenKey)] kid = some tokenKey := by simp [Dict.get?_cons]
  constructor
  case current | stored => exact own
  case free => rfl
  all_goals simp [KeyService.start, Signer.create]

/-- A new process over keys that were made. -/
theorem load (accounted : Accounted state) {items : Keys K} (made : state.made.get? items.kid = some items.tokenKey) :
    Accounted (state.load items) where
  current := made
  free := Dict.get?_pop_self ..
  previous := by simp [KeyService.load, Signer.load]
  distinct := by simp [KeyService.load, Signer.load]
  stored := made
  backups := accounted.backups
  overlaps := by
    intro kid there
    by_cases same : kid = items.kid
    · rw [same]
      show (state.made.get? items.kid).isSome
      rw [made]
      rfl
    · apply accounted.overlaps kid
      rwa [← Dict.get?_pop_other _ same]
  issued := accounted.issued
  past := accounted.past

theorem rotate (accounted : Accounted state) (overlap : ℚ) (key : K) {kid : String}
    (fresh : state.made.get? kid = none) : Accounted (state.step (.rotate overlap key kid)) := by
  have known : ∀ {kid' : String} {key' : K}, state.made.get? kid' = some key' → kid' ≠ kid := by
    rintro kid' key' made rfl
    rw [fresh] at made
    cases made
  have kept : ∀ {kid' : String} {key' : K}, state.made.get? kid' = some key' →
      (state.made.set kid key).get? kid' = some key' :=
    fun made => (Dict.get?_set_other _ _ (known made)).trans made
  have old : ∀ entry ∈ state.signer.tokens.previous, entry.1 ≠ state.signer.tokens.kid := by
    intro entry member same
    exact (List.nodup_cons.mp accounted.distinct).1 (same ▸ List.mem_map_of_mem member)
  rw [KeyService.step, fresh]
  constructor
  case current => exact Dict.get?_set_self ..
  case free =>
    refine (Dict.get?_set_other _ _ (known accounted.current).symm).trans ?_
    cases there : state.overlaps.get? kid with
    | none => rfl
    | some until_ =>
      have made := accounted.overlaps kid (by rw [there]; rfl)
      rw [fresh] at made
      cases made
  case previous =>
    intro kid' key' until_ member
    obtain earlier | last := List.mem_append.mp (List.mem_filter.mp member).1
    · obtain ⟨made, retires⟩ := accounted.previous kid' key' until_ earlier
      exact ⟨kept made, (Dict.get?_set_other _ _ (old _ earlier)).trans retires⟩
    · cases List.mem_singleton.mp last
      exact ⟨kept accounted.current, Dict.get?_set_self ..⟩
  case distinct =>
    rw [List.nodup_cons]
    constructor
    · intro member
      obtain ⟨entry, inside, same⟩ := List.mem_map.mp member
      obtain earlier | last := List.mem_append.mp (List.mem_filter.mp inside).1
      · exact known (accounted.previous entry.1 entry.2.1 entry.2.2 earlier).1 same
      · cases List.mem_singleton.mp last
        exact known accounted.current same
    · refine List.Nodup.sublist (List.Sublist.map _ List.filter_sublist) ?_
      rw [List.map_append, List.nodup_append]
      refine ⟨(List.nodup_cons.mp accounted.distinct).2, by simp, ?_⟩
      intro kid' earlier last here same
      obtain ⟨entry, member, rfl⟩ := List.mem_map.mp earlier
      exact old entry member (same.trans (List.mem_singleton.mp here))
  case stored => exact kept accounted.stored
  case backups => exact fun items member => kept (accounted.backups items member)
  case overlaps =>
    intro kid' there
    show ((state.made.set kid key).get? kid').isSome
    by_cases same : kid' = state.signer.tokens.kid
    · rw [same, kept accounted.current]
      rfl
    · have before : (state.overlaps.get? kid').isSome := by
        rwa [← Dict.get?_set_other state.overlaps (state.time + overlap) same]
      obtain ⟨key', made⟩ := Option.isSome_iff_exists.mp (accounted.overlaps kid' before)
      rw [kept made]
      rfl
  case issued =>
    intro token member
    obtain ⟨key', made, signed⟩ := accounted.issued token member
    exact ⟨key', kept made, signed⟩
  case past => exact accounted.past

theorem step (accounted : Accounted state) (event : KeyService.Event K) : Accounted (state.step event) := by
  cases event with
  | wait seconds =>
    refine { accounted with past := fun token member => ?_ }
    exact (accounted.past token member).trans (le_add_of_nonneg_right (abs_nonneg seconds))
  | issue subject lifetime jti =>
    refine { accounted with issued := fun token member => ?_, past := fun token member => ?_ }
    · obtain rfl | earlier := List.mem_cons.mp member
      · exact ⟨_, accounted.current, rfl⟩
      · exact accounted.issued token earlier
    · obtain rfl | earlier := List.mem_cons.mp member
      · exact le_refl _
      · exact accounted.past token earlier
  | rotate overlap key kid =>
    cases fresh : state.made.get? kid with
    | none => exact accounted.rotate overlap key fresh
    | some other =>
      rw [KeyService.step, fresh]
      exact accounted
  | rotateRoot key => exact { accounted with stored := accounted.current }
  | restart => exact accounted.load accounted.stored
  | backup =>
    refine { accounted with backups := fun items member => ?_ }
    obtain earlier | last := List.mem_append.mp member
    · exact accounted.backups items earlier
    · rw [List.mem_singleton.mp last]
      exact accounted.current
  | restore which =>
    rw [KeyService.step]
    split
    next items found => exact accounted.load (accounted.backups items (List.mem_of_getElem? found))
    next => exact accounted

end Accounted

/-- A token that is due verifies exactly when the key set has its key. -/
theorem survives_iff [DecidableEq K] (accounted : Accounted state) : Survives state ↔ Covered state := by
  constructor
  · intro survives token member due
    by_contra absent
    have verified := survives token member due
    have unknown := keyset_other accounted.distinct absent
    rw [Token.verify, KeySet.usable, unknown] at verified
    cases verified
  · intro covered token member due
    have usable : state.signer.tokens.keyset.usable token.kid state.time = true ∧
        state.signer.tokens.keyset.keys.get? token.kid = state.made.get? token.kid := by
      rw [KeySet.usable]
      obtain current | rotated := List.mem_cons.mp (covered token member due)
      · obtain ⟨here, stays⟩ := keyset_current accounted.distinct
        rw [current, here, stays, accounted.current]
        exact ⟨rfl, rfl⟩
      · obtain ⟨⟨kid, key, until_⟩, inside, same⟩ := List.mem_map.mp rotated
        dsimp only at same
        subst same
        obtain ⟨here, retires⟩ := keyset_previous accounted.distinct inside
        obtain ⟨made, overlap⟩ := accounted.previous _ key until_ inside
        rw [here, retires, made]
        exact ⟨by simpa using due.within until_ overlap, rfl⟩
    obtain ⟨key, made, signed⟩ := accounted.issued token member
    have skew : (0 : ℚ) ≤ tokenSkew := by decide +kernel
    have unexpired : ¬state.time > token.payload.exp + tokenSkew :=
      not_lt.mpr (due.unexpired.trans (le_add_of_nonneg_right skew))
    have started : ¬state.time < token.payload.iat - tokenSkew :=
      not_lt.mpr ((sub_le_self _ skew).trans (accounted.past token member))
    rw [Token.verify, usable.1, usable.2, made, signed, if_neg (by simp), if_neg (by simp), if_neg unexpired,
      if_neg started, if_neg (by simp)]

/-! ## Runs -/

/-- A process over other keys covers the tokens that those keys signed. -/
theorem covered_load (items : Keys K) :
    Covered (state.load items) ↔ ∀ token ∈ state.issued, Due state token → token.kid = items.kid := by
  have within : ∀ kid, kid ≠ items.kid → (Within (state.load items) kid ↔ Within state kid) := by
    intro kid other
    have same : (state.load items).overlaps.get? kid = state.overlaps.get? kid := Dict.get?_pop_other _ other
    rw [Within, Within, same]
    exact Iff.rfl
  constructor
  · intro covered token member due
    by_contra other
    have later : Due (state.load items) token := ⟨due.unexpired, (within _ other).mpr due.within⟩
    exact other (by simpa [KeyService.load, Signer.load] using covered token member later)
  · intro loaded token member due
    by_contra other
    have different : token.kid ≠ items.kid := by simpa [KeyService.load, Signer.load] using other
    exact different (loaded token member ⟨due.unexpired, (within _ different).mp due.within⟩)

theorem covered_step (accounted : Accounted state) (covered : Covered state) (event : KeyService.Event K) :
    Covered (state.step event) ↔ Allowed state event := by
  cases event with
  | wait seconds =>
    have later : state.time ≤ state.time + |seconds| := le_add_of_nonneg_right (abs_nonneg seconds)
    refine ⟨fun _ => trivial, fun _ token member due => covered token member ⟨later.trans due.unexpired, ?_⟩⟩
    exact fun until_ retires => lt_of_le_of_lt later (due.within until_ retires)
  | issue subject lifetime jti =>
    refine ⟨fun _ => trivial, fun _ token member due => ?_⟩
    obtain rfl | earlier := List.mem_cons.mp member
    · exact .head _
    · exact covered token earlier ⟨due.unexpired, due.within⟩
  | rotate overlap key kid =>
    refine ⟨fun _ => trivial, fun _ => ?_⟩
    cases fresh : state.made.get? kid with
    | some other =>
      rw [KeyService.step, fresh]
      exact covered
    | none =>
      rw [KeyService.step, fresh]
      intro token member due
      -- the key is kept as long as its overlap lasts
      have keeps : ∀ entry ∈ state.signer.tokens.previous ++
          [(state.signer.tokens.kid, state.signer.tokens.key, state.time + overlap)],
          entry.1 = token.kid → (state.overlaps.set state.signer.tokens.kid (state.time + overlap)).get? entry.1 =
            some entry.2.2 →
              token.kid ∈ (state.signer.tokens.rotate overlap state.time key kid).previous.map Prod.fst := by
        intro entry inside same retires
        rw [same] at retires
        refine List.mem_map.mpr ⟨entry, List.mem_filter.mpr ⟨inside, ?_⟩, same⟩
        simpa using due.within entry.2.2 retires
      apply List.mem_cons_of_mem
      by_cases current : token.kid = state.signer.tokens.kid
      · exact keeps _ (List.mem_append_right _ (List.mem_singleton.mpr rfl)) current.symm (Dict.get?_set_self ..)
      · have before : Due state token := by
          refine ⟨due.unexpired, fun until_ retires => due.within until_ ?_⟩
          exact (Dict.get?_set_other _ _ current).trans retires
        obtain here | rotated := List.mem_cons.mp (covered token member before)
        · exact absurd here current
        · obtain ⟨entry, inside, same⟩ := List.mem_map.mp rotated
          refine keeps entry (List.mem_append_left _ inside) same ?_
          rw [same, Dict.get?_set_other _ _ current, ← same]
          exact (accounted.previous entry.1 entry.2.1 entry.2.2 inside).2
  | rotateRoot key =>
    exact ⟨fun _ => trivial, fun _ token member due => covered token member ⟨due.unexpired, due.within⟩⟩
  | restart => exact covered_load state.stored
  | backup => exact ⟨fun _ => trivial, fun _ token member due => covered token member ⟨due.unexpired, due.within⟩⟩
  | restore which =>
    rw [KeyService.step, Allowed]
    split
    next items found =>
      refine (covered_load items).trans ⟨fun loaded items' found' => ?_, fun loaded => loaded items found⟩
      rw [found] at found'
      cases found'
      exact loaded
    next missing =>
      refine ⟨fun _ items found => ?_, fun _ => covered⟩
      rw [missing] at found
      cases found

/-- The tokens survive a run exactly when every process that starts in it, over the variable or over
a backup, finds the key that has signed all tokens still due. -/
theorem tokens_survive [DecidableEq K] (domain org : String) (time : ℚ) (key tokenKey : K) (kid : String)
    (events : List (KeyService.Event K)) :
    let first := KeyService.start domain org time key tokenKey kid
    (∀ past, past <+: events → Survives (past.foldl KeyService.step first)) ↔
      Along KeyService.step Allowed events first := by
  intro first
  have start : Accounted first := .start domain org time key tokenKey kid
  have fresh : Survives first := by
    intro token member
    cases member
  refine (always_iff_along (fun _ event accounted => accounted.step event) ?_ events start).trans
    ⟨And.right, fun along => ⟨fresh, along⟩⟩
  intro state event accounted survives
  rw [survives_iff (accounted.step event)]
  exact covered_step accounted ((survives_iff accounted).mp survives) event

/-- A new token key, and a new process before anything else writes the variable. -/
def rotatedAndRestarted : List (KeyService.Event Nat) :=
  [.rotate 900 2 "bbbb", .issue "alice" 900 "jti-1", .restart]

/-- The token is refused a moment after it was issued: its key is not in the published set. -/
theorem restart_loses_key :
    let final := rotatedAndRestarted.foldl KeyService.step (.start "acme" "customer" 1000 0 1 "aaaa")
    ¬Survives final ∧ final.issued.map (fun token => (token.kid, token.payload.exp)) = [("bbbb", 1900)] ∧
      final.signer.tokens.keyset.keys.map Prod.fst = ["aaaa"] := by
  intro final
  have unrotated : final.overlaps.get? "bbbb" = none := by decide +kernel
  refine ⟨fun survives => ?_, by decide +kernel, by decide +kernel⟩
  have due : Due final ⟨"bbbb", ⟨"alice", 1000, 1900, "jti-1"⟩, some 2⟩ := by
    refine ⟨by decide +kernel, fun until_ retires => ?_⟩
    rw [unrotated] at retires
    cases retires
  have refused := survives _ (by decide +kernel) due
  revert refused
  decide +kernel

end EdgeVms.Verified.TokenKeys
