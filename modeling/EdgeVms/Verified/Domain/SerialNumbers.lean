import EdgeVms.Domain.Serials
import EdgeVms.Process.Run

/-! # Does a root sign one serial number twice?

A serial number is the number of a call of `issue` since the construction of the
signer, and successive constructions sign under the root that they find: so two of
them give out the same numbers, from 1 on.
-/

namespace EdgeVms.Verified.SerialNumbers

open Process Domain

variable {K κ : Type} [DecidableEq κ] {parse : String → Option K} {state : Issuance K κ}

/-- No two certificates under one key have one serial number. -/
def Unique (log : List (Issued K)) : Prop := (log.map fun issued => (issued.cert.signature, issued.serial)).Nodup

/-- If the event makes a leaf, the `n`th of its construction, then no other construction has made its
`n`th under the same root. -/
def OwnNumber (parse : String → Option K) (state : Issuance K κ) : Issuance.Event K κ → Prop
  | .issue place asking _ builds => ∀ id me, state.running place = some (id, me) →
      (asking.arguments parse).isSome → builds = true → ∀ issued ∈ state.log, ∀ other n, issued.made = some (other, n) →
        other ≠ id → issued.cert.signature = some me.signer.root.key → n ≠ state.calls.count id + 1
  | _ => True

/-! ## What every run keeps -/

structure Tracked (state : Issuance K κ) : Prop where
  /-- The counter of a signer is the number of its calls. -/
  counter : ∀ place id me, state.running place = some (id, me) →
    me.serial = state.calls.count id ∧ id < state.constructions
  apart : ∀ place place' id me me', state.running place = some (id, me) → state.running place' = some (id, me') →
    place = place'
  /-- No call was made by a construction that is still to come. -/
  known : ∀ id ∈ state.calls, id < state.constructions
  leaf : ∀ issued ∈ state.log, ∀ id n, issued.made = some (id, n) →
    issued.serial = .counted n ∧ n ≤ state.calls.count id
  other : ∀ issued ∈ state.log, issued.made = none → ∃ bits ∈ state.drawn, issued.serial = .random bits

omit [DecidableEq κ] in
theorem tracked_start : Tracked (.start : Issuance K κ) := by
  constructor <;> simp [Issuance.start]

omit [DecidableEq κ] in
theorem Tracked.row (tracked : Tracked state) (row : Option (Keys K)) : Tracked { state with row := row } :=
  ⟨tracked.counter, tracked.apart, tracked.known, tracked.leaf, tracked.other⟩

theorem running_update {running : κ → Option (Nat × SignerInstance K)} {at_ place : κ}
    {entry found : Nat × SignerInstance K} (here : Function.update running at_ (some entry) place = some found) :
    place = at_ ∧ found = entry ∨ place ≠ at_ ∧ running place = some found := by
  by_cases same : place = at_
  · subst same
    rw [Function.update_self] at here
    exact .inl ⟨rfl, (Option.some.inj here).symm⟩
  · rw [Function.update_of_ne same] at here
    exact .inr ⟨same, here⟩

/-- A new construction has made no call. -/
theorem Tracked.place (tracked : Tracked state) (at_ : κ) (signer : Signer K) :
    Tracked (state.place at_ ⟨signer, 0⟩) := by
  have unused : state.calls.count state.constructions = 0 := by
    refine List.count_eq_zero.mpr fun called => ?_
    have earlier := tracked.known _ called
    omega
  have older : ∀ place id me, state.running place = some (id, me) → id ≠ state.constructions :=
    fun place id me here => Nat.ne_of_lt (tracked.counter place id me here).2
  refine ⟨fun place id me here => ?_, fun place place' id me me' here here' => ?_, fun id called => ?_, tracked.leaf,
    tracked.other⟩
  · obtain ⟨-, new⟩ | ⟨-, earlier⟩ := running_update here
    · cases new
      exact ⟨unused.symm, Nat.lt_succ_self _⟩
    · exact (tracked.counter place id me earlier).imp_right fun earlier => Nat.lt_succ_of_lt earlier
  · obtain ⟨rfl, new⟩ | ⟨-, earlier⟩ := running_update here
    · cases new
      obtain ⟨rfl, -⟩ | ⟨-, earlier'⟩ := running_update here'
      · rfl
      · exact absurd rfl (older _ _ _ earlier')
    · obtain ⟨rfl, new'⟩ | ⟨-, earlier'⟩ := running_update here'
      · cases new'
        exact absurd rfl (older _ _ _ earlier)
      · exact tracked.apart place place' id me me' earlier earlier'
  · exact Nat.lt_succ_of_lt (tracked.known id called)

/-- A running signer with its number, whatever it is otherwise; only its own calls have changed. -/
theorem Tracked.update (tracked : Tracked state) {at_ : κ} {id : Nat} {me : SignerInstance K}
    (here : state.running at_ = some (id, me)) (changed : SignerInstance K) (calls : List Nat)
    (counts : changed.serial = calls.count id) (others : ∀ id', id' ≠ id → calls.count id' = state.calls.count id')
    (more : state.calls.count id ≤ calls.count id) :
    Tracked { state with
      running := Function.update state.running at_ (some (id, changed))
      calls := calls } := by
  have fewer : ∀ id', state.calls.count id' ≤ calls.count id' := by
    intro id'
    by_cases same : id' = id
    · exact same ▸ more
    · exact (others id' same).ge
  refine ⟨fun place id' me' found => ?_, fun place place' id' me' me'' found found' => ?_, fun id' called => ?_,
    fun issued inside id' n made => ?_, tracked.other⟩
  · obtain ⟨-, same⟩ | ⟨other, earlier⟩ := running_update found
    · cases same
      exact ⟨counts, (tracked.counter at_ id me here).2⟩
    · have apart : id' ≠ id := fun same => other (tracked.apart place at_ id' me' me earlier (same ▸ here))
      exact ⟨(tracked.counter place id' me' earlier).1.trans (others id' apart).symm,
        (tracked.counter place id' me' earlier).2⟩
  · obtain ⟨rfl, same⟩ | ⟨other, earlier⟩ := running_update found
    · cases same
      obtain ⟨rfl, -⟩ | ⟨-, earlier'⟩ := running_update found'
      · rfl
      · exact tracked.apart _ _ _ _ _ here earlier'
    · obtain ⟨rfl, same'⟩ | ⟨-, earlier'⟩ := running_update found'
      · cases same'
        exact tracked.apart _ _ _ _ _ earlier here
      · exact tracked.apart place place' id' me' me'' earlier earlier'
  · by_cases same : id' = id
    · exact same ▸ (tracked.counter at_ id me here).2
    · have called : 0 < calls.count id' := List.count_pos_iff.mpr called
      rw [others id' same] at called
      exact tracked.known id' (List.count_pos_iff.mp called)
  · obtain ⟨serial, earlier⟩ := tracked.leaf issued inside id' n made
    exact ⟨serial, earlier.trans (fewer id')⟩

omit [DecidableEq κ] in
/-- Certificates with random numbers. -/
theorem Tracked.draw (tracked : Tracked state) {entries : List (Issued K)} {drawn : List Nat}
    (random : ∀ issued ∈ entries, issued.made = none ∧ ∃ bits ∈ drawn, issued.serial = .random bits) :
    Tracked { state with log := state.log ++ entries, drawn := drawn ++ state.drawn } := by
  refine { tracked with leaf := fun issued inside id n made => ?_, other := fun issued inside made => ?_ }
  · obtain earlier | new := List.mem_append.mp inside
    · exact tracked.leaf issued earlier id n made
    · rw [(random issued new).1] at made
      cases made
  · obtain earlier | new := List.mem_append.mp inside
    · obtain ⟨bits, known, serial⟩ := tracked.other issued earlier made
      exact ⟨bits, by simp [known], serial⟩
    · obtain ⟨-, bits, known, serial⟩ := random issued new
      exact ⟨bits, by simp [known], serial⟩

omit [DecidableEq κ] in
/-- A leaf with the number of the last call of its construction. -/
theorem Tracked.sign (tracked : Tracked state) (cert : Certificate K) (id : Nat) :
    Tracked { state with
      log := state.log ++ [⟨cert, .counted (state.calls.count id), some (id, state.calls.count id)⟩] } := by
  refine { tracked with leaf := fun issued inside id' n made => ?_, other := fun issued inside made => ?_ }
  · obtain earlier | rfl := List.mem_append.mp inside |>.imp_right List.mem_singleton.mp
    · exact tracked.leaf issued earlier id' n made
    · cases made
      exact ⟨rfl, le_rfl⟩
  · obtain earlier | rfl := List.mem_append.mp inside |>.imp_right List.mem_singleton.mp
    · exact tracked.other issued earlier made
    · cases made

/-! ## One step -/

omit [DecidableEq κ] in
theorem Tracked.drawn (tracked : Tracked state) {issued : Issued K} (inside : issued ∈ state.log) {bits : Nat}
    (random : issued.serial = .random bits) : bits ∈ state.drawn := by
  cases made : issued.made with
  | none =>
    obtain ⟨bits', known, serial⟩ := tracked.other issued inside made
    cases random.symm.trans serial
    exact known
  | some call =>
    have counted := (tracked.leaf issued inside call.1 call.2 made).1
    cases random.symm.trans counted

omit [DecidableEq κ] in
/-- Certificates with fresh random numbers repeat nothing. -/
theorem Tracked.unique_draw (tracked : Tracked state) {entries : List (Issued K)} {drawn : List Nat}
    (random : ∀ issued ∈ entries, issued.made = none ∧ ∃ bits ∈ drawn, issued.serial = .random bits)
    (fresh : ∀ bits ∈ drawn, bits ∉ state.drawn) (apart : (entries.map Issued.serial).Nodup) :
    Unique (state.log ++ entries) ↔ Unique state.log := by
  rw [Unique, Unique, List.map_append, List.nodup_append]
  refine ⟨fun all => all.1, fun unique => ⟨unique, ?_, ?_⟩⟩
  · refine List.Nodup.of_map Prod.snd ?_
    simpa [Function.comp_def] using apart
  · intro pair earlier pair' new same
    obtain ⟨issued, inside, rfl⟩ := List.mem_map.mp earlier
    obtain ⟨issued', inside', rfl⟩ := List.mem_map.mp new
    obtain ⟨-, bits, drawn, serial⟩ := random issued' inside'
    have equal : issued.serial = .random bits := (congrArg Prod.snd same).trans serial
    exact fresh bits drawn (tracked.drawn inside equal)

omit [DecidableEq κ] in
/-- A leaf repeats nothing if no other construction has used its number under its root. -/
theorem Tracked.unique_sign (tracked : Tracked state) (cert : Certificate K) (id : Nat) :
    Unique (state.log ++ [⟨cert, .counted (state.calls.count id + 1), some (id, state.calls.count id + 1)⟩]) ↔
      Unique state.log ∧ ∀ issued ∈ state.log, ∀ other n, issued.made = some (other, n) → other ≠ id →
        issued.cert.signature = cert.signature → n ≠ state.calls.count id + 1 := by
  rw [Unique, Unique, List.map_append, List.nodup_append]
  constructor
  · rintro ⟨unique, -, apart⟩
    refine ⟨unique, fun issued inside other n made _ root same => ?_⟩
    have serial := (tracked.leaf issued inside other n made).1
    refine apart _ (List.mem_map_of_mem inside) _ (List.mem_map_of_mem (List.mem_singleton_self _)) ?_
    rw [serial, root, same]
  · rintro ⟨unique, others⟩
    refine ⟨unique, by simp, fun pair earlier pair' new same => ?_⟩
    obtain ⟨issued, inside, rfl⟩ := List.mem_map.mp earlier
    obtain rfl := List.mem_singleton.mp new
    obtain ⟨root, serial⟩ := Prod.mk.inj same
    cases made : issued.made with
    | none =>
      obtain ⟨bits, -, random⟩ := tracked.other issued inside made
      cases serial.symm.trans random
    | some call =>
      obtain ⟨other, n⟩ := call
      obtain ⟨counted, earlier⟩ := tracked.leaf issued inside other n made
      cases serial.symm.trans counted
      by_cases own : other = id
      · subst own
        omega
      · exact others issued inside other _ made own root rfl

/-- A step keeps the record, and the numbers stay unique exactly when it numbers its leaf for itself. -/
theorem Tracked.step (tracked : Tracked state) (event : Issuance.Event K κ) :
    Tracked (state.step parse event) ∧
      (Unique (state.step parse event).log ↔ Unique state.log ∧ OwnNumber parse state event) := by
  cases event with
  | create place domain org now key tokenKey kid bits =>
    rw [Issuance.step]
    split
    next => exact ⟨tracked, by simp [OwnNumber]⟩
    next fresh =>
      have random :
          ∀ issued ∈ [(⟨(Signer.create domain org now key tokenKey kid).root.cert, .random bits, none⟩ : Issued K)],
          issued.made = none ∧ ∃ b ∈ [bits], issued.serial = .random b := by simp
      refine ⟨((tracked.place place _).draw random).row _, ?_⟩
      exact (tracked.unique_draw random (by simpa using fresh) (by simp)).trans (and_iff_left trivial).symm
  | load place domain org =>
    rw [Issuance.step]
    split
    next => exact ⟨tracked, by simp [OwnNumber]⟩
    next items => exact ⟨tracked.place place _, by simp [OwnNumber, Issuance.place]⟩
  | persist place =>
    rw [Issuance.step]
    split
    next => exact ⟨tracked, by simp [OwnNumber]⟩
    next => exact ⟨tracked.row _, by simp [OwnNumber]⟩
  | rotateRoot place overlap now key bits crossBits =>
    rw [Issuance.step]
    split
    next => exact ⟨tracked, by simp [OwnNumber]⟩
    next id me here =>
      split
      next => exact ⟨tracked, by simp [OwnNumber]⟩
      next fresh =>
        simp only [not_or] at fresh
        obtain ⟨new, newCross, apart⟩ := fresh
        let signed := me.signer.rotateRoot TrustBundle.empty overlap now key
        have random : ∀ issued ∈ [(⟨signed.1.root.cert, .random bits, none⟩ : Issued K),
            ⟨signed.2.2, .random crossBits, none⟩],
            issued.made = none ∧ ∃ b ∈ [bits, crossBits], issued.serial = .random b := by simp
        have counts := (tracked.counter place id me here).1
        have updated := tracked.update here { me with signer := signed.1 } state.calls counts (fun _ _ => rfl) le_rfl
        refine ⟨updated.draw random, ?_⟩
        exact (tracked.unique_draw random (by simp [new, newCross]) (by simpa using apart)).trans
          (and_iff_left trivial).symm
  | issue place asking now builds =>
    rw [Issuance.step]
    split
    next id me cn kind publicKey lifetime here arguments =>
      obtain ⟨signer, serial⟩ := me
      obtain rfl : serial = state.calls.count id := (tracked.counter place id _ here).1
      have called : (state.calls ++ [id]).count id = state.calls.count id + 1 := by simp
      have others : ∀ id', id' ≠ id → (state.calls ++ [id]).count id' = state.calls.count id' := by
        intro id' other
        simp [List.count_append, Ne.symm other]
      have updated := tracked.update here ⟨signer, state.calls.count id + 1⟩ (state.calls ++ [id]) called.symm others
        (by omega)
      dsimp only
      split
      next built =>
        have signed := updated.sign (signer.issue cn kind publicKey lifetime now) id
        dsimp only at signed
        rw [called] at signed ⊢
        refine ⟨signed, (tracked.unique_sign _ id).trans (and_congr_right fun _ => ?_)⟩
        constructor
        · intro apart id' me' here' _ _ issued inside other n made own root
          cases here.symm.trans here'
          exact apart issued inside other n made own root
        · intro apart issued inside other n made own root
          exact apart id _ here (by simp [arguments]) built issued inside other n made own root
      next unbuilt =>
        refine ⟨updated, (and_iff_left ?_).symm⟩
        intro _ _ _ _ built
        exact absurd built unbuilt
    next nothing =>
      refine ⟨tracked, (and_iff_left ?_).symm⟩
      intro id me here some_
      obtain ⟨⟨cn, kind, publicKey, lifetime⟩, arguments⟩ := Option.isSome_iff_exists.mp some_
      exact absurd arguments (nothing id me cn kind publicKey lifetime here)

/-- In a run every root signs each serial number once exactly when no two constructions ever make the
call of the same number under one root. -/
theorem serials_unique_iff (parse : String → Option K) (events : List (Issuance.Event K κ)) :
    Unique (events.foldl (Issuance.step parse) .start).log ↔
      Along (Issuance.step parse) (OwnNumber parse) events (.start : Issuance K κ) := by
  have keeps : ∀ (state : Issuance K κ) event, Tracked state → Tracked (state.step parse event) :=
    fun state event tracked => (tracked.step event).1
  have steps : ∀ (state : Issuance K κ) event, Tracked state → (Unique (state.step parse event).log ↔
      Unique state.log ∧ OwnNumber parse state event) := fun state event tracked => (tracked.step event).2
  have counted := @after_iff_along _ _ (Issuance.step parse) (OwnNumber parse) _ (fun state => Unique state.log)
    keeps steps events _ tracked_start
  rw [counted]
  exact and_iff_right List.nodup_nil

/-! ## A restart -/

/-- The signer is restarted between two certificates: both have the number 1. -/
theorem serial_twice : ¬Unique (([.create () "acme" "customer" 1000 0 1 "k1" 7,
    .issue () (.issue "node-1" .service 2 none) 1001 true, .load () "acme" "customer",
    .issue () (.issue "node-2" .service 3 none) 1002 true] : List (Issuance.Event Nat Unit)).foldl
      (Issuance.step fun _ => none) .start).log := by
  have signed : (([.create () "acme" "customer" 1000 0 1 "k1" 7,
    .issue () (.issue "node-1" .service 2 none) 1001 true, .load () "acme" "customer",
    .issue () (.issue "node-2" .service 3 none) 1002 true] : List (Issuance.Event Nat Unit)).foldl
      (Issuance.step fun _ => none) .start).log.map (fun issued => (issued.cert.signature, issued.serial)) =
      [(some 0, .random 7), (some 0, .counted 1), (some 0, .counted 1)] := rfl
  rw [Unique, signed]
  decide

end EdgeVms.Verified.SerialNumbers
