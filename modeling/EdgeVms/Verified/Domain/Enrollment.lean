import EdgeVms.Domain.Enroll
import Mathlib.Data.List.Induction

/-! # Was every device certificate earned?

What waits in the table was proved when it was asked for, and nothing since has
used it, turned it down or let it lapse; so an approval hands out what was asked
for, and only once.  Nothing of the kind is kept for vouchers.
-/

namespace EdgeVms.Verified

open Python Domain

namespace Enrollment

variable {K : Type} [DecidableEq K] {parse : String → Option K} {root : Certificate K} {door : Door K}
  {registrar : Registrar K} {hello : Hello K} {now : ℚ}

/-! ## What is checked -/

/-- A certificate of the manufacturer's, in its window. -/
structure Genuine (root cert : Certificate K) (now : ℚ) : Prop where
  issuer : root.subject.rfc4514 = cert.issuer.rfc4514
  signed : cert.signature = some root.publicKey
  begun : cert.notValidBefore - 300 ≤ now
  lasts : now ≤ cert.notValidAfter + 300
  named : root.subject.commonNames ≠ []

/-- The hello comes from the holder of an IDevID that names its serial. -/
structure ProvedBy (root : Certificate K) (hello : Hello K) (now : ℚ) (cert : Certificate K) : Prop where
  idevid : hello.idevid = some cert
  genuine : Genuine root cert now
  proof : hello.proof = some cert.publicKey
  serial : cert.subject.commonNames.head? = some hello.serial

def Proved (root : Certificate K) (hello : Hello K) (now : ℚ) : Prop := ∃ cert, ProvedBy root hello now cert

/-- The voucher's body names the pledge, the registrar and the nonce, and has not expired. -/
structure Names (door : Door K) (hello : Hello K) (now : ℚ) (body : VoucherBody) : Prop where
  serial : body.serial = hello.serial
  registrar : body.registrar = door.id
  nonce : body.nonce = hello.nonce
  unexpired : now ≤ body.exp

def Vouched (door : Door K) (hello : Hello K) (voucher : Voucher K) (now : ℚ) : Prop :=
  ∃ key body, door.masaPublic = some key ∧ voucher = .signed (some body) (some key) ∧ Names door hello now body

theorem verify_root {cert : Certificate K} :
    (∃ cn, (TrustBundle.empty.add root 0).verify cert now 300 [] = .ok cn) ↔ Genuine root cert now := by
  have rounds : (TrustBundle.empty.add root 0).verify cert now 300 [] =
      TrustBundle.verifyRounds cert now 300 [(root, 0)] := rfl
  rw [rounds, TrustBundle.verifyRounds, TrustBundle.verifyRounds]
  constructor
  · rintro ⟨cn, accepted⟩
    split_ifs at accepted with differs retired forged early late
    cases named : root.subject.commonNames with
    | nil => simp [named] at accepted
    | cons cn' rest =>
      exact ⟨not_not.mp differs, not_not.mp forged, not_lt.mp early, not_lt.mp late, by simp [named]⟩
  · intro genuine
    obtain ⟨cn, rest, named⟩ := List.exists_cons_of_ne_nil genuine.named
    refine ⟨cn, ?_⟩
    rw [if_neg (not_not.mpr genuine.issuer), if_neg (by simp), if_neg (not_not.mpr genuine.signed),
      if_neg (not_lt.mpr genuine.begun), if_neg (not_lt.mpr genuine.lasts), named]

theorem checkHello_ok {cert : Certificate K} (vendor : registrar.vendor = TrustBundle.empty.add root 0) :
    registrar.checkHello hello now = .ok cert ↔ ProvedBy root hello now cert := by
  unfold Registrar.checkHello
  rw [vendor]
  constructor
  · intro accepted
    cases idevid : hello.idevid with
    | none => simp [idevid] at accepted
    | some cert' =>
      rw [idevid] at accepted
      dsimp only at accepted
      cases verified : (TrustBundle.empty.add root 0).verify cert' now 300 [] with
      | error failure => simp [verified] at accepted
      | ok cn =>
        rw [verified] at accepted
        dsimp only at accepted
        split_ifs at accepted with unproved
        cases names : cert'.subject.commonNames with
        | nil => simp [names] at accepted
        | cons first rest =>
          rw [names] at accepted
          dsimp only at accepted
          split_ifs at accepted with other
          cases accepted
          exact ⟨idevid, verify_root.mp ⟨cn, verified⟩, not_not.mp unproved, by simp [names, not_not.mp other]⟩
  · intro proved
    obtain ⟨cn, verified⟩ := verify_root.mpr proved.genuine
    obtain ⟨rest, names⟩ := List.head?_eq_some_iff.mp proved.serial
    simp [proved.idevid, verified, proved.proof, names]

theorem checkVoucher_ok {voucher : Voucher K} :
    registrar.checkVoucher voucher hello.serial hello.nonce now = .ok () ↔
      Vouched registrar.toDoor hello voucher now := by
  unfold Registrar.checkVoucher
  constructor
  · intro accepted
    cases masa : registrar.masaPublic with
    | none => simp [masa] at accepted
    | some key =>
      rw [masa] at accepted
      cases voucher with
      | unsplit => simp at accepted
      | signed body signature =>
        dsimp only at accepted
        split_ifs at accepted with forged
        cases body with
        | none => simp at accepted
        | some body =>
          dsimp only at accepted
          split_ifs at accepted with wrong
          obtain ⟨serial, id, nonce, late⟩ : body.serial = hello.serial ∧ body.registrar = registrar.id ∧
              body.nonce = hello.nonce ∧ ¬ body.exp < now := by
            simpa only [ne_eq, not_or, not_not] using wrong
          exact ⟨key, body, masa, by rw [not_not.mp forged], serial, id, nonce, not_lt.mp late⟩
  · rintro ⟨key, body, masa, rfl, names⟩
    simp [masa, names.serial, names.registrar, names.nonce, names.unexpired]

/-! ## What is issued -/

/-- A certificate for the serial and the public key of a hello. -/
structure IssuedFor (parse : String → Option K) (signer : Signer K) (hello : Hello K) (cert : Certificate K) :
    Prop where
  subject : cert.subject = nameOf hello.serial signer.org
  publicKey : parse hello.csrPub = some cert.publicKey

omit [DecidableEq K] in
theorem issue_ok {how : String} {cert : Certificate K}
    (issued : (registrar.issue parse hello how now).1.toOption = some cert) :
    IssuedFor parse registrar.signer hello cert := by
  unfold Registrar.issue at issued
  cases parsed : parse hello.csrPub with
  | none => simp [parsed, Except.toOption] at issued
  | some pub =>
    rw [parsed] at issued
    cases issued
    exact ⟨rfl, parsed⟩

omit [DecidableEq K] in
theorem issue_pending (registrar : Registrar K) (hello : Hello K) (how : String) (now : ℚ) :
    (registrar.issue parse hello how now).2.pending = registrar.pending := by
  unfold Registrar.issue
  split <;> rfl

omit [DecidableEq K] in
theorem issue_door (registrar : Registrar K) (hello : Hello K) (how : String) (now : ℚ) :
    (registrar.issue parse hello how now).2.toDoor = registrar.toDoor := by
  unfold Registrar.issue
  split <;> rfl

/-! ## What waits -/

/-- A request for this serial that lapses at `expires` still waits after the call. -/
def Keeps (root : Certificate K) (serial : String) (expires : ℚ) : ℚ × Registrar.Call K → Prop
  | (now, .request hello) => Proved root hello now → hello.serial ≠ serial ∧ now < expires
  | (now, .approve serial' _) => serial' ≠ serial ∧ now < expires
  | (_, .reject serial' _) => serial' ≠ serial
  | (now, .expirePending) => now < expires
  | (_, .enrollWithVoucher _ _) => True

/-- The request at `i` still waits after the calls. -/
structure Waits (root : Certificate K) (ttl : ℚ) (calls : List (ℚ × Registrar.Call K)) (i : Nat) (hello : Hello K)
    (asked : ℚ) : Prop where
  request : calls[i]? = some (asked, .request hello)
  proved : Proved root hello asked
  kept : ∀ k call, i < k → calls[k]? = some call → Keeps root hello.serial (asked + ttl) call

omit [DecidableEq K] in
theorem Waits.concat {ttl asked : ℚ} {calls : List (ℚ × Registrar.Call K)} {i : Nat}
    (waits : Waits root ttl calls i hello asked) {call : ℚ × Registrar.Call K}
    (keeps : Keeps root hello.serial (asked + ttl) call) : Waits root ttl (calls ++ [call]) i hello asked where
  request := by
    rw [List.getElem?_append_left (List.getElem?_eq_some_iff.mp waits.request).1]
    exact waits.request
  proved := waits.proved
  kept k call' later found := by
    obtain inside | outside := Nat.lt_or_ge k calls.length
    · rw [List.getElem?_append_left inside] at found
      exact waits.kept k call' later found
    · rw [List.getElem?_append_right outside] at found
      rw [List.getElem?_singleton] at found
      split_ifs at found
      cases found
      exact keeps

omit [DecidableEq K] in
/-- A request that has just been made. -/
theorem Waits.last {ttl asked : ℚ} {calls : List (ℚ × Registrar.Call K)} (proved : Proved root hello asked) :
    Waits root ttl (calls ++ [(asked, .request hello)]) calls.length hello asked where
  request := by simp
  proved := proved
  kept k call later found := by
    have outside : (calls ++ [(asked, Registrar.Call.request hello)]).length ≤ k := by
      simp only [List.length_append, List.length_singleton]
      omega
    rw [List.getElem?_eq_none outside] at found
    cases found

/-- Every entry of the table is a request that waits. -/
structure Accounted (door : Door K) (root : Certificate K) (calls : List (ℚ × Registrar.Call K))
    (registrar : Registrar K) : Prop where
  made : registrar.toDoor = door
  distinct : (registrar.pending.map Prod.fst).Nodup
  waits : ∀ serial p, registrar.pending.get? serial = some p → p.hello.serial = serial ∧
    ∃ i asked, p.expiresAt = asked + door.approvalTtl ∧ Waits root door.approvalTtl calls i p.hello asked

omit [DecidableEq K] in
theorem expirePending_get? (distinct : (registrar.pending.map Prod.fst).Nodup) {serial : String} {p : Pending K}
    (found : (registrar.expirePending now).2.pending.get? serial = some p) :
    registrar.pending.get? serial = some p ∧ now < p.expiresAt := by
  obtain ⟨member, alive⟩ := List.mem_filter.mp (Dict.mem_of_get? found)
  refine ⟨Dict.get?_of_mem distinct member, ?_⟩
  simpa using alive

omit [DecidableEq K] in
theorem expirePending_distinct (distinct : (registrar.pending.map Prod.fst).Nodup) :
    ((registrar.expirePending now).2.pending.map Prod.fst).Nodup :=
  distinct.sublist (List.filter_sublist.map Prod.fst)

omit [DecidableEq K] in
theorem get?_of_pop {dict : Dict (Pending K)} {key serial : String} {p : Pending K}
    (found : (dict.pop key).get? serial = some p) : key ≠ serial ∧ dict.get? serial = some p := by
  by_cases same : serial = key
  · subst same
    rw [Dict.get?_pop_self] at found
    cases found
  · rw [Dict.get?_pop_other _ same] at found
    exact ⟨Ne.symm same, found⟩

/-! ## One call -/

/-- What waits after a call waited before it, or was asked for in it. -/
theorem call_pending (parse : String → Option K) (vendor : registrar.vendor = TrustBundle.empty.add root 0)
    (distinct : (registrar.pending.map Prod.fst).Nodup) (call : ℚ × Registrar.Call K) :
    ((registrar.step parse call).pending.map Prod.fst).Nodup ∧
      ∀ serial p, (registrar.step parse call).pending.get? serial = some p →
        (registrar.pending.get? serial = some p ∧ Keeps root serial p.expiresAt call) ∨
          (call = (p.requestedAt, .request p.hello) ∧ p.hello.serial = serial ∧
            Proved root p.hello p.requestedAt ∧ p.expiresAt = p.requestedAt + registrar.approvalTtl) := by
  obtain ⟨now, call⟩ := call
  cases call with
  | request hello =>
    simp only [Registrar.step, Registrar.call, Registrar.request]
    cases checked : registrar.checkHello hello now with
    | error failure =>
      refine ⟨distinct, fun serial p found => .inl ⟨found, fun proved => ?_⟩⟩
      obtain ⟨cert, proved⟩ := proved
      rw [(checkHello_ok vendor).mpr proved] at checked
      cases checked
    | ok cert =>
      refine ⟨Dict.nodup_keys_set (expirePending_distinct distinct) _ _, fun serial p found => ?_⟩
      by_cases same : serial = hello.serial
      · subst same
        rw [Dict.get?_set_self] at found
        cases found
        exact .inr ⟨rfl, rfl, ⟨cert, (checkHello_ok vendor).mp checked⟩, rfl⟩
      · rw [Dict.get?_set_other _ _ same] at found
        obtain ⟨there, alive⟩ := expirePending_get? distinct found
        exact .inl ⟨there, fun _ => ⟨Ne.symm same, alive⟩⟩
  | approve serial' by_ =>
    simp only [Registrar.step, Registrar.call, Registrar.approve]
    cases waiting : (registrar.expirePending now).2.pending.get? serial' with
    | none =>
      refine ⟨expirePending_distinct distinct, fun serial p found => .inl ?_⟩
      obtain ⟨there, alive⟩ := expirePending_get? distinct found
      refine ⟨there, fun same => ?_, alive⟩
      rw [same, found] at waiting
      cases waiting
    | some q =>
      simp only [issue_pending]
      refine ⟨Dict.nodup_keys_pop (expirePending_distinct distinct) _, fun serial p found => .inl ?_⟩
      obtain ⟨other, found⟩ := get?_of_pop found
      obtain ⟨there, alive⟩ := expirePending_get? distinct found
      exact ⟨there, other, alive⟩
  | reject serial' by_ =>
    simp only [Registrar.step, Registrar.call, Registrar.reject]
    cases waiting : registrar.pending.get? serial' with
    | none =>
      refine ⟨distinct, fun serial p found => .inl ⟨found, fun same => ?_⟩⟩
      rw [same, found] at waiting
      cases waiting
    | some q =>
      refine ⟨Dict.nodup_keys_pop distinct _, fun serial p found => .inl ?_⟩
      obtain ⟨other, there⟩ := get?_of_pop found
      exact ⟨there, other⟩
  | expirePending =>
    exact ⟨expirePending_distinct distinct, fun serial p found => .inl (expirePending_get? distinct found)⟩
  | enrollWithVoucher hello voucher =>
    have same : (registrar.step parse (now, .enrollWithVoucher hello voucher)).pending = registrar.pending := by
      simp only [Registrar.step, Registrar.call, Registrar.enrollWithVoucher]
      split
      · rfl
      · split
        · rfl
        · exact issue_pending ..
    rw [same]
    exact ⟨distinct, fun serial p found => .inl ⟨found, trivial⟩⟩

theorem call_door (parse : String → Option K) (registrar : Registrar K) (call : ℚ × Registrar.Call K) :
    (registrar.step parse call).toDoor = registrar.toDoor := by
  obtain ⟨now, call⟩ := call
  cases call with
  | request hello =>
    simp only [Registrar.step, Registrar.call, Registrar.request]
    split <;> rfl
  | approve serial by_ =>
    simp only [Registrar.step, Registrar.call, Registrar.approve]
    split
    · rfl
    · exact issue_door ..
  | reject serial by_ =>
    simp only [Registrar.step, Registrar.call, Registrar.reject]
    split <;> rfl
  | expirePending => rfl
  | enrollWithVoucher hello voucher =>
    simp only [Registrar.step, Registrar.call, Registrar.enrollWithVoucher]
    split
    · rfl
    · split
      · rfl
      · exact issue_door ..

theorem Accounted.step {calls : List (ℚ × Registrar.Call K)} (vendor : door.vendor = TrustBundle.empty.add root 0)
    (accounted : Accounted door root calls registrar) (call : ℚ × Registrar.Call K) :
    Accounted door root (calls ++ [call]) (registrar.step parse call) := by
  have vendor' : registrar.vendor = TrustBundle.empty.add root 0 := by rw [accounted.made, vendor]
  obtain ⟨distinct, pending⟩ := call_pending parse vendor' accounted.distinct call
  refine ⟨(call_door ..).trans accounted.made, distinct, fun serial p found => ?_⟩
  obtain ⟨there, keeps⟩ | ⟨rfl, names, proved, expires⟩ := pending serial p found
  · obtain ⟨rfl, i, asked, expires, waits⟩ := accounted.waits serial p there
    exact ⟨rfl, i, asked, expires, waits.concat (expires ▸ keeps)⟩
  · rw [accounted.made] at expires
    exact ⟨names, calls.length, p.requestedAt, expires, .last proved⟩

theorem accounted_run (domain : String) (signer : Signer K) (masaPublic : Option K) (ttl : ℚ)
    (calls : List (ℚ × Registrar.Call K)) :
    Accounted (Registrar.create domain signer root masaPublic ttl).toDoor root calls
      (calls.foldl (Registrar.step parse) (Registrar.create domain signer root masaPublic ttl)) := by
  induction calls using List.reverseRecOn with
  | nil => exact ⟨rfl, List.nodup_nil, fun serial p found => by cases found⟩
  | append_singleton calls call ih =>
    rw [List.foldl_append]
    exact ih.step rfl call

/-! ## Every certificate was earned -/

/-- The call hands out a certificate for the hello, on a voucher or on the request at an earlier place. -/
inductive Earned (door : Door K) (root : Certificate K) (before : List (ℚ × Registrar.Call K)) (hello : Hello K) :
    Option Nat → ℚ × Registrar.Call K → Prop
  | voucher {now voucher} (proved : Proved root hello now) (vouched : Vouched door hello voucher now) :
      Earned door root before hello none (now, .enrollWithVoucher hello voucher)
  | approval {i now asked by_} (waits : Waits root door.approvalTtl before i hello asked)
      (alive : now < asked + door.approvalTtl) :
      Earned door root before hello (some i) (now, .approve hello.serial by_)

theorem earned_call {calls : List (ℚ × Registrar.Call K)} (vendor : door.vendor = TrustBundle.empty.add root 0)
    (accounted : Accounted door root calls registrar) {call : ℚ × Registrar.Call K} {cert : Certificate K}
    (issued : (registrar.call parse call).1 = some cert) :
    ∃ hello source, IssuedFor parse door.signer hello cert ∧ Earned door root calls hello source call := by
  have vendor' : registrar.vendor = TrustBundle.empty.add root 0 := by rw [accounted.made, vendor]
  rw [← accounted.made]
  obtain ⟨now, call⟩ := call
  cases call with
  | request hello => cases issued
  | approve serial by_ =>
    simp only [Registrar.call, Registrar.approve] at issued
    cases waiting : (registrar.expirePending now).2.pending.get? serial with
    | none => simp [waiting, Except.toOption] at issued
    | some p =>
      simp only [waiting] at issued
      obtain ⟨there, alive⟩ := expirePending_get? accounted.distinct waiting
      obtain ⟨rfl, i, asked, expires, waits⟩ := accounted.waits serial p there
      rw [expires] at alive
      rw [← accounted.made] at waits alive
      have issuedFor := issue_ok issued
      exact ⟨p.hello, some i, issuedFor, .approval waits alive⟩
  | reject serial by_ => cases issued
  | expirePending => cases issued
  | enrollWithVoucher hello voucher =>
    simp only [Registrar.call, Registrar.enrollWithVoucher] at issued
    cases proved : registrar.checkHello hello now with
    | error failure => simp [proved, Except.toOption] at issued
    | ok idevid =>
      simp only [proved] at issued
      cases vouched : registrar.checkVoucher voucher hello.serial hello.nonce now with
      | error failure => simp [vouched, Except.toOption] at issued
      | ok _ =>
        simp only [vouched] at issued
        exact ⟨hello, none, issue_ok issued,
          .voucher ⟨idevid, (checkHello_ok vendor').mp proved⟩ (checkVoucher_ok.mp vouched)⟩

omit [DecidableEq K] in
/-- A request does not wait any more after its serial was approved. -/
theorem not_waits_after {ttl asked now : ℚ} {calls : List (ℚ × Registrar.Call K)} {i j : Nat} {by_ : String}
    (later : i < j) (approved : calls[j]? = some (now, .approve hello.serial by_)) :
    ¬ Waits root ttl calls i hello asked :=
  fun waits => (waits.kept j _ later approved).1 rfl

omit [DecidableEq K] in
theorem Waits.before {ttl asked : ℚ} {calls : List (ℚ × Registrar.Call K)} {i j : Nat}
    (waits : Waits root ttl (calls.take j) i hello asked) : i < j ∧ calls[i]? = some (asked, .request hello) := by
  have request := waits.request
  rw [List.getElem?_take] at request
  split_ifs at request with before
  exact ⟨before, request⟩

omit [DecidableEq K] in
/-- Of two approvals of one request, the second comes too late. -/
theorem not_earned_twice {calls : List (ℚ × Registrar.Call K)} {i j j' : Nat} {hello' : Hello K}
    {call call' : ℚ × Registrar.Call K} (first : calls[j]? = some call)
    (earned : Earned door root (calls.take j) hello (some i) call)
    (earned' : Earned door root (calls.take j') hello' (some i) call') : ¬ j < j' := by
  intro before
  cases earned with
  | approval waits alive =>
    cases earned' with
    | approval waits' alive' =>
      obtain ⟨later, request⟩ := waits.before
      obtain ⟨-, request'⟩ := waits'.before
      cases request.symm.trans request'
      exact not_waits_after later ((List.getElem?_take_of_lt before).trans first) waits'

/-- Every device certificate was earned, and each request earns one at most. -/
theorem certificates_earned (parse : String → Option K) (domain : String) (signer : Signer K) (root : Certificate K)
    (masaPublic : Option K) (ttl : ℚ) (calls : List (ℚ × Registrar.Call K)) :
    let start := Registrar.create domain signer root masaPublic ttl
    (∀ j call cert, calls[j]? = some call →
      (((calls.take j).foldl (Registrar.step parse) start).call parse call).1 = some cert →
      ∃ hello source, IssuedFor parse signer hello cert ∧
        Earned start.toDoor root (calls.take j) hello source call) ∧
    ∀ i j j' call call' hello hello', calls[j]? = some call → calls[j']? = some call' →
      Earned start.toDoor root (calls.take j) hello (some i) call →
      Earned start.toDoor root (calls.take j') hello' (some i) call' → j = j' := by
  refine ⟨fun j call cert _ issued => ?_, fun i j j' call call' hello hello' first second earned earned' => ?_⟩
  · exact earned_call rfl (accounted_run ..) issued
  · have notBefore := not_earned_twice first earned earned'
    have notAfter := not_earned_twice second earned' earned
    omega

end Enrollment

/-! ## Vouchers -/

namespace Enrollment.VoucherUse

variable {K : Type} [DecidableEq K] {parse : String → Option K} {root : Certificate K} {registrar : Registrar K}

/-- A call of `enroll_with_voucher`, at a time. -/
abbrev Attempt (K : Type) := ℚ × Hello K × Voucher K

def Attempt.call (attempt : Attempt K) : ℚ × Registrar.Call K :=
  (attempt.1, .enrollWithVoucher attempt.2.1 attempt.2.2)

/-- The certificates that the attempts hand out, each beside its voucher's nonce. -/
def handedOut (parse : String → Option K) : Registrar K → List (Attempt K) → List (Option String × Certificate K)
  | _, [] => []
  | registrar, attempt :: rest =>
    let (issued, registrar) := registrar.call parse attempt.call
    issued.toList.map (fun cert => (attempt.2.2.nonce, cert)) ++ handedOut parse registrar rest

/-- A voucher is used once. -/
def UsedOnce (parse : String → Option K) (registrar : Registrar K) (attempts : List (Attempt K)) : Prop :=
  ∀ nonce, ((handedOut parse registrar attempts).filter fun entry => entry.1 = nonce).length ≤ 1

/-- The hello is proved, the voucher names it, and its public key is one. -/
def InOrder (parse : String → Option K) (door : Door K) (root : Certificate K) (attempt : Attempt K) : Prop :=
  Proved root attempt.2.1 attempt.1 ∧ Vouched door attempt.2.1 attempt.2.2 attempt.1 ∧
    (parse attempt.2.1.csrPub).isSome

omit [DecidableEq K] in
theorem issue_isSome {hello : Hello K} {how : String} {now : ℚ} :
    (registrar.issue parse hello how now).1.toOption.isSome ↔ (parse hello.csrPub).isSome := by
  unfold Registrar.issue
  cases parse hello.csrPub <;> simp [Except.toOption]

/-- A call goes by its own inputs. -/
theorem issued_iff (vendor : registrar.vendor = TrustBundle.empty.add root 0) (attempt : Attempt K) :
    (registrar.call parse attempt.call).1.isSome ↔ InOrder parse registrar.toDoor root attempt := by
  obtain ⟨now, hello, voucher⟩ := attempt
  simp only [Attempt.call, Registrar.call, Registrar.enrollWithVoucher, InOrder]
  cases proved : registrar.checkHello hello now with
  | error failure =>
    have unproved : ¬ Proved root hello now := by
      rintro ⟨cert, proved'⟩
      rw [(checkHello_ok vendor).mpr proved'] at proved
      cases proved
    simp [unproved, Except.toOption]
  | ok cert =>
    have proved' : Proved root hello now := ⟨cert, (checkHello_ok vendor).mp proved⟩
    cases vouched : registrar.checkVoucher voucher hello.serial hello.nonce now with
    | error failure =>
      have unvouched : ¬ Vouched registrar.toDoor hello voucher now := by
        intro vouched'
        rw [checkVoucher_ok.mpr vouched'] at vouched
        cases vouched
      simp [unvouched, Except.toOption]
    | ok _ =>
      simp only [proved', checkVoucher_ok.mp vouched, true_and]
      exact issue_isSome

theorem nonces_cons (parse : String → Option K) (vendor : registrar.vendor = TrustBundle.empty.add root 0)
    (attempt : Attempt K) (rest : List (Attempt K)) :
    (InOrder parse registrar.toDoor root attempt →
      (handedOut parse registrar (attempt :: rest)).map Prod.fst =
        attempt.2.2.nonce :: (handedOut parse (registrar.step parse attempt.call) rest).map Prod.fst) ∧
    (¬ InOrder parse registrar.toDoor root attempt →
      (handedOut parse registrar (attempt :: rest)).map Prod.fst =
        (handedOut parse (registrar.step parse attempt.call) rest).map Prod.fst) := by
  rw [← issued_iff vendor]
  simp only [handedOut, Registrar.step]
  cases (registrar.call parse attempt.call).1 <;> simp

theorem mem_nonces (vendor : registrar.vendor = TrustBundle.empty.add root 0) {nonce : Option String}
    {attempts : List (Attempt K)} :
    nonce ∈ (handedOut parse registrar attempts).map Prod.fst ↔
      ∃ attempt ∈ attempts, InOrder parse registrar.toDoor root attempt ∧ attempt.2.2.nonce = nonce := by
  induction attempts generalizing registrar with
  | nil => simp [handedOut]
  | cons attempt rest ih =>
    have door := call_door parse registrar attempt.call
    have vendor' : (registrar.step parse attempt.call).vendor = TrustBundle.empty.add root 0 := by rw [door, vendor]
    have later := ih vendor'
    rw [door] at later
    obtain ⟨inOrder, refused⟩ := nonces_cons parse vendor attempt rest
    by_cases holds : InOrder parse registrar.toDoor root attempt
    · rw [inOrder holds, List.mem_cons, later]
      simp only [List.mem_cons, exists_eq_or_imp, holds, true_and]
      exact or_congr eq_comm Iff.rfl
    · rw [refused holds, later]
      simp only [List.mem_cons, exists_eq_or_imp, holds, false_and, false_or]

theorem nodup_nonces (vendor : registrar.vendor = TrustBundle.empty.add root 0) {attempts : List (Attempt K)} :
    ((handedOut parse registrar attempts).map Prod.fst).Nodup ↔
      attempts.Pairwise fun earlier later => InOrder parse registrar.toDoor root earlier →
        InOrder parse registrar.toDoor root later → earlier.2.2.nonce ≠ later.2.2.nonce := by
  induction attempts generalizing registrar with
  | nil => simp [handedOut]
  | cons attempt rest ih =>
    have door := call_door parse registrar attempt.call
    have vendor' : (registrar.step parse attempt.call).vendor = TrustBundle.empty.add root 0 := by rw [door, vendor]
    obtain ⟨inOrder, refused⟩ := nonces_cons parse vendor attempt rest
    rw [List.pairwise_cons, ← door, ← ih vendor', door]
    by_cases holds : InOrder parse registrar.toDoor root attempt
    · rw [inOrder holds, List.nodup_cons, mem_nonces vendor', door]
      refine and_congr ?_ Iff.rfl
      constructor
      · intro fresh later member _ inOrder' same
        exact fresh ⟨later, member, inOrder', same.symm⟩
      · rintro distinct ⟨later, member, inOrder', same⟩
        exact distinct later member holds inOrder' same.symm
    · rw [refused holds]
      simp [holds]

theorem usedOnce_iff_nodup {attempts : List (Attempt K)} :
    UsedOnce parse registrar attempts ↔ ((handedOut parse registrar attempts).map Prod.fst).Nodup := by
  rw [List.nodup_iff_count_le_one]
  refine forall_congr' fun nonce => ?_
  rw [List.count_eq_countP, List.countP_map, List.countP_eq_length_filter]
  simp only [Function.comp_def, beq_eq_decide]

/-- A voucher is used once exactly if no two attempts that are in order share a nonce. -/
theorem used_once_iff (parse : String → Option K) (domain : String) (signer : Signer K) (root : Certificate K)
    (masaPublic : Option K) (ttl : ℚ) (attempts : List (Attempt K)) :
    let start := Registrar.create domain signer root masaPublic ttl
    UsedOnce parse start attempts ↔
      attempts.Pairwise fun earlier later => InOrder parse start.toDoor root earlier →
        InOrder parse start.toDoor root later → earlier.2.2.nonce ≠ later.2.2.nonce :=
  usedOnce_iff_nodup.trans (nodup_nonces rfl)

/-- A hello of the box SN-0001, and the voucher that its manufacturer wrote for it. -/
def attempt : Attempt Nat :=
  (1000,
    ⟨"SN-0001", "n1", "09",
      some ⟨nameOf "SN-0001" "vendor", nameOf "vendor IDevID CA" "vendor", 7, 940, 631000000, some 1⟩,
      some 7⟩,
    .signed (some ⟨"SN-0001", "acme/registrar", "n1", 87400⟩) (some 2))

def registrar₀ : Registrar Nat :=
  .create "acme" (Signer.create "acme" "customer" 0 5 6 "k")
    ⟨nameOf "vendor IDevID CA" "vendor", nameOf "vendor IDevID CA" "vendor", 1, 940, 631000000, some 1⟩ (some 2) 3600

/-- The same hello and the same voucher, twice. -/
theorem replayed : ¬ UsedOnce (fun _ => some 9) registrar₀ [attempt, attempt] := by
  intro once
  have twice : ((handedOut (fun _ => some 9) registrar₀ [attempt, attempt]).filter
      fun entry => entry.1 = some "n1").length = 2 := by decide +kernel
  have := once (some "n1")
  omega

end Enrollment.VoucherUse

end EdgeVms.Verified
